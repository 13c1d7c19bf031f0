import Orchestrator.Library.PythonJson
import Orchestrator.Library.Sha1
import Mathlib.Data.List.DropRight
import Mathlib.Algebra.Group.Int.Defs

/-!
# The observer of an owner's connections

`proxy_observer.py`: it is fed copies of the bytes that a relay passes on, in both directions,
follows the opening handshake, the frames and the JSON-RPC messages in them, and queues records
of a few kinds. What it cannot follow is a gap, after which the connection counts for nothing.
-/
namespace Orchestrator.Native
open Library PythonJson

inductive Direction where
  | client | server
  deriving DecidableEq, Repr

def Direction.opposite : Direction → Direction
  | .client => .server
  | .server => .client

/-- A `str` or an `int` that may stand as the id of a request. -/
inductive Id where
  | str (s : Text)
  | int (n : Int)
  deriving DecidableEq, Repr

/-- What is let through of the parameters and of a thread. -/
inductive Param where
  | str (s : Text)
  | bool (b : Bool)
  | strs (items : List Text)
  deriving DecidableEq, Repr

abbrev Params := List (String × Param)

/-! ## Records -/

inductive Event where
  | connectionOpen
  | connectionClose
  | gap (reason : String) (sizes : Option (Nat × Nat) := none)
  | websocketUpgrade
  | wsControl (opcode : String)
  | rpc (requestId : Option Id) (method : Text) (params : Params) (thread : Option Params)
  | rpcUnknown (requestId : Option Id) (method : Option Text) (workspaceProbe : Option Bool)
    (response : Bool)
  | rpcResponse (requestId : Id) (requestDirection : Direction) (method : Text) (ok : Bool)
    (thread : Option Params)
  deriving DecidableEq, Repr

structure Record where
  event : Event
  connEpoch : Option Nat
  localSeq : Nat
  direction : Option Direction
  deriving DecidableEq, Repr

def Record.isGap (r : Record) : Bool :=
  match r.event with
  | .gap _ _ => true
  | _ => false

/-! ## Connections -/

/-- The limits of an observer, as its constructor accepts them. How deep the interpreter lets
`json.loads` recurse is one of them. -/
structure Config where
  maxHeaderBytes : Nat := 64 * 1024
  maxFrameBytes : Nat := 1024 * 1024
  maxMessageBytes : Nat := 2 * 1024 * 1024
  maxEvents : Nat := 4096
  expectedWorkspaceCwd : Option Text := none
  recursionLimit : Nat := 1000
  positive : 1 ≤ maxHeaderBytes ∧ 1 ≤ maxFrameBytes ∧ 1 ≤ maxMessageBytes := by decide
  reserve : 2 ≤ maxEvents := by decide

/-- `_Direction`. -/
structure Parser where
  buffer : List UInt8 := []
  handshakeDone : Bool := false
  fragmentOpcode : Option Nat := none
  fragmentPayload : List UInt8 := []
  deriving DecidableEq, Repr

inductive Attachment where
  | unbound | pending | disconnected
  deriving DecidableEq, Repr

abbrev Pending := List ((Direction × Id) × Text)

structure Connection where
  epoch : Nat
  state : Attachment := .unbound
  valid : Bool := true
  closed : Bool := false
  overflowed : Bool := false
  clientKey : Option (List Char) := none
  client : Parser := {}
  server : Parser := {}
  pending : Pending := []
  deriving DecidableEq, Repr

namespace Connection
variable (c : Connection)

def parser : Direction → Parser
  | .client => c.client
  | .server => c.server

def setParser (p : Parser) : Direction → Connection
  | .client => { c with client := p }
  | .server => { c with server := p }

def setBuffer (d : Direction) (buffer : List UInt8) : Connection :=
  c.setParser { c.parser d with buffer := buffer } d

end Connection

def Parser.clear (p : Parser) : Parser := { handshakeDone := p.handshakeDone }

/-- `_invalidate`. -/
def Connection.invalidate (c : Connection) : Connection :=
  { c with
    valid := false
    state := .pending
    client := c.client.clear
    server := c.server.clear
    pending := [] }

/-! ## Emitting -/

structure Queue where
  nextSequence : Nat := 1
  events : List Record := []
  deriving DecidableEq, Repr

/-- `_emit`, but for the connection; whether the queue has overflowed. -/
def Queue.emit (cfg : Config) (q : Queue) (epoch : Option Nat) (d : Option Direction)
    (event : Event) : Queue × Bool :=
  let seq := q.nextSequence
  if q.events.length ≥ cfg.maxEvents - 1 then
    ({ nextSequence := seq + 2
       events := q.events ++ [⟨.gap "event_queue_overflow", epoch, seq + 1, d⟩] }, true)
  else ({ nextSequence := seq + 1, events := q.events ++ [⟨event, epoch, seq, d⟩] }, false)

/-- A connection beside the queue of its observer. -/
structure Tap where
  connection : Connection
  queue : Queue
  deriving DecidableEq, Repr

namespace Tap
variable (cfg : Config) (t : Tap)

def emit (d : Option Direction) (event : Event) : Tap :=
  if t.connection.overflowed = true then t
  else
    let (queue, overflow) := t.queue.emit cfg (some t.connection.epoch) d event
    if overflow = true then ⟨{ t.connection.invalidate with overflowed := true }, queue⟩
    else { t with queue := queue }

/-- `_gap`. -/
def gap (d : Option Direction) (reason : String) (sizes : Option (Nat × Nat) := none) : Tap :=
  if t.connection.valid = true then
    emit cfg { t with connection := t.connection.invalidate } d (.gap reason sizes)
  else t

end Tap

/-! ## The opening handshake -/

def marker : List UInt8 := [0x0D, 0x0A, 0x0D, 0x0A]

/-- `buffer.find(b"\r\n\r\n")`. -/
def findMarker : List UInt8 → Option Nat
  | [] => none
  | b :: bs => if marker.isPrefixOf (b :: bs) then some 0 else (findMarker bs).map (· + 1)

/-- White space of `str.strip`, among the ASCII characters. -/
def isStripped (c : Char) : Bool :=
  let n := c.toNat
  (9 ≤ n && n ≤ 13) || (28 ≤ n && n ≤ 32)

def strip (s : List Char) : List Char := (s.dropWhile isStripped).rdropWhile isStripped

def lower (s : List Char) : List Char := s.map Char.toLower

/-- `split("\r\n")`. -/
def splitLines : List Char → List (List Char)
  | [] => [[]]
  | '\r' :: '\n' :: rest => [] :: splitLines rest
  | c :: rest => match splitLines rest with
    | line :: lines => (c :: line) :: lines
    | [] => [[c]]

abbrev HeaderFields := List (List Char × List Char)

def isFieldChar (c : Char) : Bool := ('a' ≤ c && c ≤ 'z') || ('0' ≤ c && c ≤ '9') || c = '-'

/-- The name and the value of a line. -/
def headerField (line : List Char) : Option (List Char × List Char) :=
  if line.contains ':' = true then
    let key := lower (strip (line.takeWhile (· ≠ ':')))
    if key ≠ [] ∧ key.all isFieldChar = true then
      some (key, strip ((line.dropWhile (· ≠ ':')).drop 1))
    else none
  else none

/-- The values of the fields of one name. -/
def fieldValues (fields : HeaderFields) (name : String) : List (List Char) :=
  (fields.filter (·.1 = name.toList)).map (·.2)

/-- `_header_tokens`. -/
def headerTokens (values : List (List Char)) : List (List Char) :=
  ((values.flatMap fun value => value.splitOn ',').map strip).filter (· ≠ []) |>.map lower

def wsGuid : String := "258EAFA5-E914-47DA-95CA-C5AB0DC85B11"

def acceptFor (key : List Char) : List Char :=
  base64Encode (sha1 ((key ++ wsGuid.toList).map fun c => UInt8.ofNat c.toNat))

/-- The checks of a client's upgrade; its key. -/
def upgradeRequest (first : List Char) (fields : HeaderFields) : Option (List Char) :=
  let parts := first.splitOn ' '
  let required := ["host", "sec-websocket-key", "sec-websocket-version"]
  if parts.length = 3 ∧ parts.head? = some "GET".toList ∧
      parts.getLast? = some "HTTP/1.1".toList ∧
      required.all (fun name => fieldValues fields name ≠ []) = true ∧
      fieldValues fields "sec-websocket-version" = ["13".toList] ∧
      "websocket".toList ∈ headerTokens (fieldValues fields "upgrade") ∧
      "upgrade".toList ∈ headerTokens (fieldValues fields "connection") then
    match fieldValues fields "sec-websocket-key" with
    | [key] =>
      let nonce := base64Decode key
      if nonce.length = 16 ∧ base64Encode nonce = key then some key else none
    | _ => none
  else none

/-- The checks of a server's answer. -/
def upgradeResponse (clientKey : Option (List Char)) (first : List Char)
    (fields : HeaderFields) : Bool :=
  match clientKey with
  | none => false
  | some key =>
    "HTTP/1.1 101 ".toList.isPrefixOf first &&
      decide ("websocket".toList ∈ headerTokens (fieldValues fields "upgrade")) &&
      decide ("upgrade".toList ∈ headerTokens (fieldValues fields "connection")) &&
      decide (fieldValues fields "sec-websocket-accept" = [acceptFor key])

/-- What the observer takes from a header that is complete; the reason of a gap otherwise. -/
def checkUpgrade (clientKey : Option (List Char)) (d : Direction) (header : List UInt8) :
    Except String (Option (List Char)) :=
  if header.any (0x80 ≤ ·.toNat) = true then .error "invalid_http_header"
  else
    let lines := splitLines (header.map fun b => Char.ofNat b.toNat)
    if lines.any (·.contains '\x00') = true then .error "invalid_http_header"
    else match lines with
    | [] => .error "invalid_http_header"
    | first :: rest => match rest.mapM headerField with
      | none => .error "invalid_http_header"
      | some fields =>
        if (fieldValues fields "sec-websocket-extensions").any (fun value => strip value ≠ []) then
          .error "unsupported_extension"
        else match d with
        | .client => match upgradeRequest first fields with
          | some key => .ok (some key)
          | none => .error "invalid_upgrade_request"
        | .server =>
          if upgradeResponse clientKey first fields = true then .ok clientKey
          else .error "invalid_upgrade_response"

namespace Tap
variable (cfg : Config) (t : Tap)

def setBuffer (d : Direction) (buffer : List UInt8) : Tap :=
  { t with connection := t.connection.setBuffer d buffer }

def upgrade (d : Direction) (key : Option (List Char)) : Tap :=
  let connection := { t.connection with clientKey := key }
  let parser := { connection.parser d with handshakeDone := true }
  emit cfg { t with connection := connection.setParser parser d } d .websocketUpgrade

/-- `_parse_upgrade`, once the header is complete. -/
def takeHeader (d : Direction) (header : List UInt8) : Tap :=
  match checkUpgrade t.connection.clientKey d header with
  | .error reason => t.gap cfg d reason
  | .ok key => t.upgrade cfg d key

/-- `_parse_upgrade`; the handshake is done where it returns `True`. -/
def parseUpgrade (d : Direction) : Tap :=
  let buffer := (t.connection.parser d).buffer
  match findMarker buffer with
  | none => if buffer.length > cfg.maxHeaderBytes then t.gap cfg d "header_too_large" else t
  | some i =>
    if i + 4 > cfg.maxHeaderBytes then t.gap cfg d "header_too_large"
    else (t.setBuffer d (buffer.drop (i + 4))).takeHeader cfg d (buffer.take i)

end Tap

/-! ## Frames -/

def bigEndianNat (bs : List UInt8) : Nat := bs.foldl (fun n b => n * 256 + b.toNat) 0

/-- The frame at the head of a buffer, with what is behind it. -/
inductive Take where
  | wait
  | bad (reason : String) (sizes : Option (Nat × Nat) := none)
  | frame (opcode : Nat) (fin : Bool) (payload rest : List UInt8)
  deriving DecidableEq, Repr

/-- `payload ^ mask`, from the `i`th byte on. -/
def unmask (mask : List UInt8) : Nat → List UInt8 → List UInt8
  | _, [] => []
  | i, b :: bs => (b ^^^ mask.getD (i % 4) 0) :: unmask mask (i + 1) bs

@[simp] theorem unmask_length {mask : List UInt8} {i : Nat} {bs : List UInt8} :
    (unmask mask i bs).length = bs.length := by
  induction bs generalizing i with
  | nil => rfl
  | cons b bs ih => rw [unmask, List.length_cons, List.length_cons, ih]

/-- The rest of a frame, once the length of its payload is known. -/
def takePayload (cfg : Config) (opcode : Nat) (fin masked : Bool) (offset length : Nat)
    (buffer : List UInt8) : Take :=
  if opcode ≥ 11 then .bad "unsupported_opcode"
  else if opcode ≥ 8 ∧ (fin = false ∨ length > 125) then .bad "invalid_control_frame"
  else if length > cfg.maxFrameBytes then .bad "frame_too_large" (some (length, cfg.maxFrameBytes))
  else
    let start := offset + if masked = true then 4 else 0
    if buffer.length < start + length then .wait
    else
      let payload := (buffer.drop start).take length
      let mask := (buffer.drop offset).take 4
      .frame opcode fin (if masked = true then unmask mask 0 payload else payload)
        (buffer.drop (start + length))

/-- One pass of the loop of `_parse_frames`, up to the payload. -/
def takeFrame (cfg : Config) (d : Direction) (buffer : List UInt8) : Take :=
  match buffer with
  | first :: second :: rest =>
    let fin : Bool := first.toNat ≥ 0x80
    let opcode := first.toNat % 16
    let masked : Bool := second.toNat ≥ 0x80
    let code := second.toNat % 128
    if first.toNat / 16 % 8 ≠ 0 then .bad "reserved_bits"
    else if masked ≠ (d = .client : Bool) then
      .bad (if d = .client then "client_frame_unmasked" else "server_frame_masked")
    else if code < 126 then takePayload cfg opcode fin masked 2 code buffer
    else if code = 126 then
      if rest.length < 2 then .wait
      else takePayload cfg opcode fin masked 4 (bigEndianNat (rest.take 2)) buffer
    else if rest.length < 8 then .wait
    else if bigEndianNat (rest.take 1) ≥ 0x80 then .bad "invalid_frame_length"
    else takePayload cfg opcode fin masked 10 (bigEndianNat (rest.take 8)) buffer
  | _ => .wait

/-- `_valid_close_payload`. -/
def validClosePayload (payload : List UInt8) : Bool :=
  if payload.length = 0 then true
  else if payload.length = 1 then false
  else
    let code := bigEndianNat (payload.take 2)
    if code ∈ [1000, 1001, 1002, 1003, 1007, 1008, 1009, 1010, 1011, 1012, 1013, 1014] ∨
        3000 ≤ code ∧ code ≤ 4999 then (decodeUtf8 (payload.drop 2)).isSome
    else false

/-! ## Messages -/

def maxSafeId : Nat := 256
def maxSafeString : Nat := 4096
def maxPendingRequests : Nat := 256
def maxCwds : Nat := 64

def inInteger (n : Int) : Bool := -(2 ^ 63) ≤ n && n ≤ 2 ^ 63 - 1

def knownMethods : List String :=
  ["initialize", "initialized", "thread/start", "thread/resume", "thread/fork", "thread/read",
    "thread/inject_items", "thread/subscribe", "thread/unsubscribe", "thread/started",
    "skills/list"]

def threadParamMethods : List String :=
  ["thread/start", "thread/resume", "thread/fork", "thread/read", "thread/inject_items",
    "thread/subscribe", "thread/unsubscribe"]

def isKnown (method : Text) : Bool := knownMethods.any fun m => text m = method

/-- `_valid_id`. -/
def validId : Value → Option Id
  | .str s => if s ≠ [] ∧ s.length ≤ maxSafeId then some (.str s) else none
  | .int n => if inInteger n = true then some (.int n) else none
  | _ => none

/-- The reason of a gap for an id that is refused. -/
def idReason (kind : String) : Option Value → String
  | some (.int _) => kind ++ "_id_too_large"
  | _ => "invalid_" ++ kind ++ "_id"

/-- `_safe_string`. -/
def safeString : Option Value → Option Text
  | some (.str s) => if s.length ≤ maxSafeString then some s else none
  | _ => none

/-- The fields of one name that may be passed on: flags, and strings that are not too long. -/
def safeField (flags : List String) (fields : Fields) (key : String) : Option (String × Param) :=
  if key ∈ flags then match get? fields key with
  | some (.bool b) => some (key, .bool b)
  | _ => none
  else (safeString (get? fields key)).map fun s => (key, .str s)

/-- `_safe_request_params`; `none` for too many working directories. -/
def safeRequestParams (method : Text) (params : Option Value) : Option Params :=
  match params with
  | some (.dict fields) =>
    if threadParamMethods.any (fun m => text m = method) = true then
      some (["threadId", "parentThreadId", "forkedFromId", "cwd", "ephemeral",
        "includeTurns"].filterMap (safeField ["ephemeral", "includeTurns"] fields))
    else if method = text "skills/list" then
      let reload := match get? fields "forceReload" with
        | some (.bool b) => [("forceReload", Param.bool b)]
        | _ => []
      match get? fields "cwds" with
      | some (.list items) =>
        if items.length > maxCwds then none
        else match items.mapM (fun item => safeString (some item)) with
        | some cwds => some (("cwds", .strs cwds) :: reload)
        | none => some reload
      | _ => some reload
    else some []
  | _ => some []

def threadKeys : List String :=
  ["id", "sessionId", "parentThreadId", "forkedFromId", "ephemeral", "cwd"]

/-- `_thread_metadata`. -/
def threadMetadata (result : Option Value) : Option Params :=
  match result with
  | some (.dict fields) =>
    let candidate := match get? fields "thread" with
      | some (.dict thread) => some thread
      | _ =>
        if threadKeys.any (fun key => (get? fields key).isSome) = true then some fields else none
    match candidate with
    | none => none
    | some thread => match threadKeys.filterMap (safeField ["ephemeral"] thread) with
      | [] => none
      | metadata => some metadata
  | _ => none

def workspaceProbeCommand : List String :=
  ["git", "-c", "safe.bareRepository=explicit", "branch", "--show-current"]

def workspaceProbeFalseKeys : List String :=
  ["tty", "streamStdin", "streamStdoutStderr", "disableOutputCap", "disableTimeout"]

def workspaceProbeNullKeys : List String :=
  ["processId", "size", "sandboxPolicy", "permissionProfile"]

/-- `os.path.isabs`. -/
def isAbs (path : Text) : Bool := path.head? = some 0x2F

/-- `_workspace_probe_qualified`. -/
def workspaceProbeQualified (cfg : Config) (d : Direction) (requestId : Option Id)
    (params : Option Value) : Bool :=
  match cfg.expectedWorkspaceCwd, params with
  | some expected, some (.dict fields) =>
    let allowed := ["command", "cwd", "env", "timeoutMs", "outputBytesCap"] ++
      workspaceProbeFalseKeys ++ workspaceProbeNullKeys
    d = .client && requestId.isSome && isAbs expected &&
      fields.all (fun field => allowed.any fun key => text key = field.1) &&
      (match get? fields "command" with
      | some (.list items) =>
        decide (items.mapM Value.str? = some (workspaceProbeCommand.map text))
      | _ => false) &&
      (match get? fields "env" with
      | some (.dict [(key, .str value)]) =>
        decide (key = text "GIT_OPTIONAL_LOCKS" ∧ value = text "0")
      | _ => false) &&
      (match get? fields "cwd" with
      | some (.str cwd) => decide (cwd = expected)
      | _ => false) &&
      (match get? fields "timeoutMs" with
      | some (.int n) => decide (n = 5000)
      | _ => false) &&
      (match get? fields "outputBytesCap" with
      | some (.int n) => decide (n = 65536)
      | _ => false) &&
      workspaceProbeFalseKeys.all (fun key => match get? fields key with
        | none | some (.bool false) => true
        | _ => false) &&
      workspaceProbeNullKeys.all (fun key => match get? fields key with
        | none | some .null => true
        | _ => false)
  | _, _ => false

/-- `_valid_error`. -/
def validError : Value → Bool
  | .dict fields =>
    (match get? fields "code" with
    | some (.int n) => inInteger n
    | _ => false) &&
    (match get? fields "message" with
    | some (.str _) => true
    | _ => false)
  | _ => false

/-! ## Requests and responses -/

/-- What a message does: it is a gap, or it changes the requests that are pending and is
recorded. -/
inductive Effect where
  | gap (reason : String)
  | record (pending : Pending) (event : Event)
  deriving DecidableEq, Repr

def Pending.find (p : Pending) (key : Direction × Id) : Option Text :=
  (p.find? (·.1 = key)).map (·.2)

def Pending.erase (p : Pending) (key : Direction × Id) : Pending := p.filter (·.1 ≠ key)

/-- `_process_request`. -/
def processRequest (cfg : Config) (pending : Pending) (d : Direction) (fields : Fields) : Effect :=
  match get? fields "method" with
  | some (.str method) =>
    if method = [] ∨ method.length > maxSafeString then .gap "invalid_method"
    else
      let requestId := (get? fields "id").bind validId
      if (get? fields "id").isSome = true ∧ requestId = none then
        .gap (idReason "request" (get? fields "id"))
      else
        let params := get? fields "params"
        match if isKnown method = true then safeRequestParams method params else some [] with
        | none => .gap "cwds_too_many"
        | some safeParams =>
          let event := if isKnown method = true then
              .rpc requestId method safeParams
                (if method = text "thread/started" then threadMetadata params else none)
            else .rpcUnknown requestId method
              (if method = text "command/exec" then
                some (workspaceProbeQualified cfg d requestId params) else none) false
          match requestId with
          | none => .record pending event
          | some id =>
            if pending.length ≥ maxPendingRequests then .gap "pending_requests_too_many"
            else if (pending.find (d, id)).isSome = true then .gap "duplicate_request_id"
            else .record (pending ++ [((d, id), method)]) event
  | _ => .gap "invalid_method"

/-- `_process_response`. -/
def processResponse (pending : Pending) (d : Direction) (fields : Fields) : Effect :=
  if ((get? fields "error").any fun e => !validError e) = true then .gap "invalid_json_rpc"
  else match (get? fields "id").bind validId with
  | none => .gap (idReason "response" (get? fields "id"))
  | some id =>
    match pending.find (d.opposite, id) with
    | none => .record pending (.rpcUnknown id none none true)
    | some method =>
      let pending := pending.erase (d.opposite, id)
      if isKnown method = false then .record pending (.rpcUnknown id method none true)
      else if (get? fields "error").isSome = true then
        .record pending (.rpcResponse id d.opposite method false none)
      else
        .record pending
          (.rpcResponse id d.opposite method true (threadMetadata (get? fields "result")))

/-- `_process_rpc`. -/
def processRpc (cfg : Config) (pending : Pending) (d : Direction) : Value → Effect
  | .dict fields =>
    if ((get? fields "jsonrpc").any fun v => v.str? ≠ some (text "2.0")) = true then
      .gap "invalid_json_rpc"
    else
      let hasMethod := (get? fields "method").isSome
      let hasResult := (get? fields "result").isSome
      let hasError := (get? fields "error").isSome
      if hasMethod && (hasResult || hasError) || hasResult && hasError then .gap "invalid_json_rpc"
      else if hasMethod = true then processRequest cfg pending d fields
      else if hasResult || hasError then processResponse pending d fields
      else .gap "unsupported_json_rpc"
  | _ => .gap "unsupported_json_rpc"

/-- `_process_text`. -/
def processText (cfg : Config) (pending : Pending) (d : Direction) (payload : List UInt8) :
    Effect :=
  match decodeUtf8 payload with
  | none => .gap "invalid_utf8"
  | some s => match loads cfg.recursionLimit s with
    | .error .duplicateKey => .gap "duplicate_json_key"
    | .error .invalid => .gap "invalid_json"
    | .ok value => processRpc cfg pending d value

namespace Tap
variable (cfg : Config) (t : Tap)

def message (d : Direction) (payload : List UInt8) : Tap :=
  match processText cfg t.connection.pending d payload with
  | .gap reason => t.gap cfg d reason
  | .record pending event =>
    emit cfg { t with connection := { t.connection with pending := pending } } d event

def setFragment (d : Direction) (opcode : Option Nat) (payload : List UInt8) : Tap :=
  let parser := { t.connection.parser d with fragmentOpcode := opcode, fragmentPayload := payload }
  { t with connection := t.connection.setParser parser d }

/-- A message that is complete. -/
def complete (d : Direction) (opcode : Nat) (payload : List UInt8) : Tap :=
  if opcode = 1 then t.message cfg d payload else t.gap cfg d "binary_message"

def messageTooLarge (d : Direction) (length : Nat) : Tap :=
  t.gap cfg d "message_too_large" (some (length, cfg.maxMessageBytes))

/-- What the loop of `_parse_frames` does with a frame. -/
def frame (d : Direction) (opcode : Nat) (fin : Bool) (payload : List UInt8) : Tap :=
  let parser := t.connection.parser d
  if opcode ≥ 8 then
    if opcode = 8 ∧ validClosePayload payload = false then t.gap cfg d "invalid_close_payload"
    else
      t.emit cfg d (.wsControl
        (if opcode = 8 then "close" else if opcode = 9 then "ping" else "pong"))
  else if opcode = 0 then
    match parser.fragmentOpcode with
    | none => t.gap cfg d "unexpected_continuation"
    | some fragmentOpcode =>
      let message := parser.fragmentPayload ++ payload
      if message.length > cfg.maxMessageBytes then t.messageTooLarge cfg d message.length
      else if fin = true then (t.setFragment d none []).complete cfg d fragmentOpcode message
      else t.setFragment d (some fragmentOpcode) message
  else if opcode = 1 ∨ opcode = 2 then
    if parser.fragmentOpcode ≠ none then t.gap cfg d "new_data_during_fragment"
    else if payload.length > cfg.maxMessageBytes then t.messageTooLarge cfg d payload.length
    else if fin = true then t.complete cfg d opcode payload
    else t.setFragment d (some opcode) payload
  else t.gap cfg d "unsupported_opcode"

/-- At most `n` passes of the loop of `_parse_frames`. -/
def parseFrames (t : Tap) (d : Direction) : Nat → Tap
  | 0 => t
  | n + 1 =>
    if t.connection.valid = true then
      match takeFrame cfg d (t.connection.parser d).buffer with
      | .wait => t
      | .bad reason sizes => t.gap cfg d reason sizes
      | .frame opcode fin payload rest =>
        ((t.setBuffer d rest).frame cfg d opcode fin payload).parseFrames d n
    else t

def bufferLimit : Nat := cfg.maxMessageBytes + cfg.maxHeaderBytes + 32

/-- `_parse_frames`, as far as the buffer goes. -/
def parseAll (d : Direction) : Tap :=
  t.parseFrames cfg d ((t.connection.parser d).buffer.length + 1)

/-- The second half of `feed`. -/
def parseReady (d : Direction) : Tap :=
  if t.connection.valid = true ∧ (t.connection.parser d).handshakeDone = true then
    t.parseAll cfg d
  else t

/-- `feed`, once the bytes are in the buffer. -/
def parse (d : Direction) : Tap :=
  if (t.connection.parser d).handshakeDone = true then t.parseReady cfg d
  else (t.parseUpgrade cfg d).parseReady cfg d

/-- `feed`, with bytes, in one of the directions, on a connection that is open. -/
def feed (d : Direction) (incoming : List UInt8) : Tap :=
  let buffer := (t.connection.parser d).buffer
  if t.connection.valid = false then t
  else if buffer.length + incoming.length > bufferLimit cfg then
    t.gap cfg d "input_buffer_too_large"
  else (t.setBuffer d (buffer ++ incoming)).parse cfg d

/-- The gap of a connection that is closed part way through, if it is. -/
def closeReason (parsers : Direction → Parser) (anyUpgrade : Bool) (d : Direction) :
    Option String :=
  if (parsers d).fragmentOpcode ≠ none then some "incomplete_message"
  else if (parsers d).handshakeDone = false ∧ ((parsers d).buffer ≠ [] ∨ anyUpgrade = true) then
    some "incomplete_upgrade"
  else if (parsers d).buffer ≠ [] then some "incomplete_frame"
  else none

/-- The gap that `close` records first, if any. -/
def closeGap : Tap :=
  let c := t.connection
  let anyUpgrade := c.client.handshakeDone || c.server.handshakeDone
  if c.valid = false then t
  else match closeReason c.parser anyUpgrade .client with
  | some reason => t.gap cfg (some .client) reason
  | none => match closeReason c.parser anyUpgrade .server with
    | some reason => t.gap cfg (some .server) reason
    | none => t

def disconnect : Tap :=
  let connection := { t.connection with closed := true, state := .disconnected, valid := false }
  emit cfg { t with connection := connection } none .connectionClose

/-- `close`, of a connection that is not closed. -/
def close : Tap := (t.closeGap cfg).disconnect cfg

/-- What becomes of a connection whose id is opened again. -/
def reopen : Tap :=
  let t := t.gap cfg none "connection_reopened"
  emit cfg { t with connection := { t.connection with closed := true } } none .connectionClose

end Tap

/-! ## The observer -/

structure Observer (κ : Type) where
  connections : List (κ × Connection) := []
  maxEpochSeen : Nat := 0
  nextEpoch : Nat := 1
  queue : Queue := {}
  deriving DecidableEq, Repr

/-- A call; a direction that is not one of the two, and data that is not bytes, are `none`, as is
an epoch that is left out. -/
inductive Call (κ : Type) where
  | openConnection (id : κ) (epoch : Option Int)
  | setPending (id : κ)
  | feed (id : κ) (direction : Option Direction) (data : Option (List UInt8))
  | close (id : κ)
  | drainEvents
  deriving DecidableEq, Repr

namespace Observer
variable {κ : Type} [DecidableEq κ] (cfg : Config) (o : Observer κ)

def get? (id : κ) : Option Connection := (o.connections.find? (·.1 = id)).map (·.2)

/-- `_connections[conn_id] = connection`. -/
def put (id : κ) (c : Connection) : Observer κ :=
  { o with connections := (id, c) :: o.connections.filter (·.1 ≠ id) }

def putTap (id : κ) (t : Tap) : Observer κ :=
  { o.put id t.connection with queue := t.queue }

/-- A gap of no connection. -/
def unknownConnection (d : Option Direction) : Observer κ :=
  { o with queue := (o.queue.emit cfg none d (.gap "unknown_connection")).1 }

/-- The epoch that `open` takes, when it raises no error. -/
def epochFor (epoch : Option Int) : Option Nat :=
  let n := match epoch with
    | none => o.nextEpoch
    | some n => n.toNat
  if o.maxEpochSeen < n then some n else none

/-- The queue once the connection that had the id is closed. -/
def reopened (id : κ) : Queue :=
  match o.get? id with
  | none => o.queue
  | some old => if old.closed = true then o.queue else (Tap.reopen cfg ⟨old, o.queue⟩).queue

def openConnection (id : κ) (epoch : Option Int) : Observer κ :=
  match o.epochFor epoch with
  | none => o
  | some n =>
    let t := Tap.emit cfg ⟨{ epoch := n }, o.reopened cfg id⟩ none .connectionOpen
    { o with maxEpochSeen := n, nextEpoch := max o.nextEpoch (n + 1) }.putTap id t

def setPending (id : κ) : Observer κ :=
  match o.get? id with
  | some c =>
    if c.closed = true then o else o.put id { c with state := .pending, valid := false }
  | none => o

def feed (id : κ) (direction : Option Direction) (data : Option (List UInt8)) : Observer κ :=
  match o.get? id with
  | none => o.unknownConnection cfg direction
  | some c =>
    if c.closed = true then o.unknownConnection cfg direction
    else match direction, data with
    | none, _ => o.putTap id (Tap.gap cfg ⟨c, o.queue⟩ none "unknown_direction")
    | some d, none => o.putTap id (Tap.gap cfg ⟨c, o.queue⟩ d "non_bytes_input")
    | some d, some bytes => o.putTap id (Tap.feed cfg ⟨c, o.queue⟩ d bytes)

def close (id : κ) : Observer κ :=
  match o.get? id with
  | none => o.unknownConnection cfg none
  | some c => if c.closed = true then o else o.putTap id (Tap.close cfg ⟨c, o.queue⟩)

def drainEvents : Observer κ := { o with queue := { o.queue with events := [] } }

def step : Call κ → Observer κ
  | .openConnection id epoch => o.openConnection cfg id epoch
  | .setPending id => o.setPending id
  | .feed id direction data => o.feed cfg id direction data
  | .close id => o.close cfg id
  | .drainEvents => o.drainEvents

end Observer
end Orchestrator.Native
