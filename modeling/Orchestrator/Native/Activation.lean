import Orchestrator.Native.Observer
import Orchestrator.Library.PythonDumps
import Orchestrator.Library.Sha256

/-!
# The observer of an activation

`_ActivationObserver`: the observer of `proxy_observer.py`, which also tells of the answer to
`initialize` whether it names the home that the connection's lease expects. An activation never
takes the records back, so they stay in the queue.
-/
namespace Orchestrator.Native.Activation
open Library PythonJson

inductive Entry where
  | observed (event : Event)
  | initializeHome (requestId : Id) (homeMatch : Bool) (homeSha256 : Option Text)
  deriving DecidableEq, Repr

structure Row where
  entry : Entry
  connEpoch : Option Nat
  direction : Option Direction
  deriving DecidableEq, Repr

def Row.gap (reason : String) (sizes : Option (Nat × Nat)) (epoch : Option Nat)
    (d : Option Direction) : Row :=
  ⟨.observed (.gap reason sizes), epoch, d⟩

/-- A connection beside the queue of its observer; whether an error was raised. -/
structure Tap where
  connection : Connection
  rows : List Row
  raised : Bool := false
  deriving DecidableEq, Repr

namespace Tap
variable (cfg : Config) (t : Tap)

/-- `_emit`. -/
def emit (d : Option Direction) (entry : Entry) : Tap :=
  let epoch := some t.connection.epoch
  if t.connection.overflowed = true then t
  else if t.rows.length ≥ cfg.maxEvents - 1 then
    { t with
      connection := { t.connection.invalidate with overflowed := true }
      rows := t.rows ++ [Row.gap "event_queue_overflow" none epoch d] }
  else { t with rows := t.rows ++ [⟨entry, epoch, d⟩] }

/-- `_gap`. -/
def gap (d : Option Direction) (reason : String) (sizes : Option (Nat × Nat) := none) : Tap :=
  if t.connection.valid = true then
    emit cfg { t with connection := t.connection.invalidate } d (.observed (.gap reason sizes))
  else t

end Tap

/-! ## Messages -/

/-- The answer to an `initialize`, with the home that it names. -/
structure Answered where
  requestId : Id
  home : Option Text
  deriving DecidableEq, Repr

/-- `_process_response`, beside what it takes from the answer to an `initialize`. -/
def processResponse (pending : Pending) (d : Direction) (fields : Fields) :
    Effect × Option Answered :=
  let answered := match (PythonJson.get? fields "id").bind validId with
    | some id =>
      if d = .server ∧ pending.find (.client, id) = some (text "initialize") ∧
          PythonJson.get? fields "error" = none then
        some ⟨id, match PythonJson.get? fields "result" with
          | some (.dict result) => safeString (PythonJson.get? result "codexHome")
          | _ => none⟩
      else none
    | none => none
  (Native.processResponse pending d fields, answered)

/-- `_process_rpc`. -/
def processRpc (cfg : Config) (pending : Pending) (d : Direction) : Value → Effect × Option Answered
  | .dict fields =>
    if ((PythonJson.get? fields "jsonrpc").any fun v => v.str? ≠ some (text "2.0")) = true then
      (.gap "invalid_json_rpc", none)
    else
      let hasMethod := (PythonJson.get? fields "method").isSome
      let hasResult := (PythonJson.get? fields "result").isSome
      let hasError := (PythonJson.get? fields "error").isSome
      if hasMethod && (hasResult || hasError) || hasResult && hasError then
        (.gap "invalid_json_rpc", none)
      else if hasMethod = true then (processRequest cfg pending d fields, none)
      else if hasResult || hasError then processResponse pending d fields
      else (.gap "unsupported_json_rpc", none)
  | _ => (.gap "unsupported_json_rpc", none)

/-- `_process_text`. -/
def processText (cfg : Config) (pending : Pending) (d : Direction) (payload : List UInt8) :
    Effect × Option Answered :=
  match decodeUtf8 payload with
  | none => (.gap "invalid_utf8", none)
  | some s => match loads cfg.recursionLimit s with
    | .error .duplicateKey => (.gap "duplicate_json_key", none)
    | .error .invalid => (.gap "invalid_json", none)
    | .ok value => processRpc cfg pending d value

namespace Tap
variable (cfg : Config) (expectedHome : Option Text) (t : Tap)

/-- What is told of the home; a home that has no encoding raises an error. -/
def tellHome (d : Direction) (answered : Answered) : Tap :=
  if t.connection.valid = false then t
  else match answered.home with
  | none => emit cfg t d (.initializeHome answered.requestId false none)
  | some home => match encodeUtf8 home with
    | none => { t with raised := true }
    | some bytes =>
      emit cfg t d (.initializeHome answered.requestId (expectedHome = some home)
        (some (sha256Hex bytes)))

def message (d : Direction) (payload : List UInt8) : Tap :=
  match processText cfg t.connection.pending d payload with
  | (.gap reason, _) => t.gap cfg d reason
  | (.record pending event, answered) =>
    let t := emit cfg { t with connection := { t.connection with pending := pending } } d
      (.observed event)
    match answered with
    | none => t
    | some answered => t.tellHome cfg expectedHome d answered

end Tap

/-! ## Frames -/

/-- What the loop of `_parse_frames` does with a frame, or `_parse_upgrade` with a header. -/
inductive Action where
  | keep (c : Connection)
  | gap (reason : String) (sizes : Option (Nat × Nat) := none)
  | record (c : Connection) (event : Event)
  | message (c : Connection) (payload : List UInt8)

def setFragment (c : Connection) (d : Direction) (opcode : Option Nat) (payload : List UInt8) :
    Connection :=
  c.setParser { c.parser d with fragmentOpcode := opcode, fragmentPayload := payload } d

/-- A message that is complete. -/
def complete (c : Connection) (opcode : Nat) (payload : List UInt8) : Action :=
  if opcode = 1 then .message c payload else .gap "binary_message"

def messageTooLarge (cfg : Config) (length : Nat) : Action :=
  .gap "message_too_large" (some (length, cfg.maxMessageBytes))

def frame (cfg : Config) (c : Connection) (d : Direction) (opcode : Nat) (fin : Bool)
    (payload : List UInt8) : Action :=
  let parser := c.parser d
  if opcode ≥ 8 then
    if opcode = 8 ∧ validClosePayload payload = false then .gap "invalid_close_payload"
    else .record c (.wsControl
      (if opcode = 8 then "close" else if opcode = 9 then "ping" else "pong"))
  else if opcode = 0 then
    match parser.fragmentOpcode with
    | none => .gap "unexpected_continuation"
    | some fragmentOpcode =>
      let message := parser.fragmentPayload ++ payload
      if message.length > cfg.maxMessageBytes then messageTooLarge cfg message.length
      else if fin = true then complete (setFragment c d none []) fragmentOpcode message
      else .keep (setFragment c d (some fragmentOpcode) message)
  else if opcode = 1 ∨ opcode = 2 then
    if parser.fragmentOpcode ≠ none then .gap "new_data_during_fragment"
    else if payload.length > cfg.maxMessageBytes then messageTooLarge cfg payload.length
    else if fin = true then complete c opcode payload
    else .keep (setFragment c d (some opcode) payload)
  else .gap "unsupported_opcode"

/-- `_parse_upgrade`. -/
def parseUpgrade (cfg : Config) (c : Connection) (d : Direction) : Action :=
  let buffer := (c.parser d).buffer
  match findMarker buffer with
  | none => if buffer.length > cfg.maxHeaderBytes then .gap "header_too_large" else .keep c
  | some i =>
    if i + 4 > cfg.maxHeaderBytes then .gap "header_too_large"
    else match checkUpgrade c.clientKey d (buffer.take i) with
    | .error reason => .gap reason
    | .ok key =>
      let c := { c.setBuffer d (buffer.drop (i + 4)) with clientKey := key }
      .record (c.setParser { c.parser d with handshakeDone := true } d) .websocketUpgrade

namespace Tap
variable (cfg : Config) (expectedHome : Option Text) (t : Tap)

def perform (d : Direction) : Action → Tap
  | .keep c => { t with connection := c }
  | .gap reason sizes => t.gap cfg d reason sizes
  | .record c event => emit cfg { t with connection := c } d (.observed event)
  | .message c payload => message cfg expectedHome { t with connection := c } d payload

/-- At most `n` passes of the loop of `_parse_frames`. -/
def parseFrames (t : Tap) (d : Direction) : Nat → Tap
  | 0 => t
  | n + 1 =>
    if t.connection.valid = true ∧ t.raised = false then
      match takeFrame cfg d (t.connection.parser d).buffer with
      | .wait => t
      | .bad reason sizes => t.gap cfg d reason sizes
      | .frame opcode fin payload rest =>
        let c := t.connection.setBuffer d rest
        (perform cfg expectedHome { t with connection := c } d
          (frame cfg c d opcode fin payload)).parseFrames d n
    else t

/-- The second half of `feed`. -/
def parseReady (d : Direction) : Tap :=
  if t.connection.valid = true ∧ (t.connection.parser d).handshakeDone = true then
    t.parseFrames cfg expectedHome d ((t.connection.parser d).buffer.length + 1)
  else t

/-- `feed`, once the bytes are in the buffer. -/
def parse (d : Direction) : Tap :=
  if (t.connection.parser d).handshakeDone = true then t.parseReady cfg expectedHome d
  else (t.perform cfg expectedHome d (parseUpgrade cfg t.connection d)).parseReady cfg
    expectedHome d

/-- `feed`, in one of the directions, on a connection that is open. -/
def feed (d : Direction) (incoming : List UInt8) : Tap :=
  let buffer := (t.connection.parser d).buffer
  if t.connection.valid = false then t
  else if buffer.length + incoming.length > Native.Tap.bufferLimit cfg then
    t.gap cfg d "input_buffer_too_large"
  else parse cfg expectedHome
    { t with connection := t.connection.setBuffer d (buffer ++ incoming) } d

/-- The gap that `close` records first, if any. -/
def closeGap : Tap :=
  let c := t.connection
  let anyUpgrade := c.client.handshakeDone || c.server.handshakeDone
  if c.valid = false then t
  else match Native.Tap.closeReason c.parser anyUpgrade .client with
  | some reason => t.gap cfg (some .client) reason
  | none => match Native.Tap.closeReason c.parser anyUpgrade .server with
    | some reason => t.gap cfg (some .server) reason
    | none => t

def disconnect : Tap :=
  let connection := { t.connection with closed := true, state := .disconnected, valid := false }
  emit cfg { t with connection := connection } none (.observed .connectionClose)

/-- `close`, of a connection that is not closed. -/
def close : Tap := (t.closeGap cfg).disconnect cfg

/-- What becomes of a connection whose id is opened again. -/
def reopen : Tap :=
  let t := t.gap cfg none "connection_reopened"
  emit cfg { t with connection := { t.connection with closed := true } } none
    (.observed .connectionClose)

end Tap

end Orchestrator.Native.Activation
