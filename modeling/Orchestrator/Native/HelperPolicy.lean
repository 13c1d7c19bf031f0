import Orchestrator.Native.WireGate
import Orchestrator.Library.Guarded
import Orchestrator.Library.JsonBytes
import Orchestrator.Library.PythonDumps
import Orchestrator.Library.Sha256
import Mathlib.Algebra.Group.Int.Defs
import Mathlib.Algebra.Group.Nat.Defs

/-!
# What a helper and its backend may say

The checks of `owner_helper.py` on the messages of a helper's connection, for the thread that the
helper was granted, and `_complete_message` of its gates. Where Python itself raises in a check,
the message is refused too.
-/
namespace Orchestrator.Native
open Library PythonJson

def maxOutputBytes : Nat := 65536

def serverNotifications : List String :=
  ["turn/started", "turn/completed", "item/started", "item/completed", "thread/status/changed",
    "thread/updated", "thread/tokenUsage/updated", "thread/goal/cleared",
    "remoteControl/status/changed", "mcpServer/startupStatus/updated", "item/agentMessage/delta",
    "account/rateLimits/updated", "deprecationNotice"]

def paginatedReadDeprecation : String :=
  "Full-history hydration is deprecated for paginated threads; omit `includeTurns` or set it " ++
    "to `false`, then page with `thread/turns/list` and `thread/items/list`."

def rateLimitReachedTypes : List String :=
  ["rate_limit_reached", "workspace_owner_credits_depleted", "workspace_member_credits_depleted",
    "workspace_owner_usage_limit_reached", "workspace_member_usage_limit_reached"]

/-! ## Values -/

def hasKey (fields : Fields) (key : String) : Bool := (get? fields key).isSome

/-- `set(value) - keys` is empty. -/
def keysWithin (fields : Fields) (keys : List String) : Bool :=
  fields.all fun field => keys.any fun key => field.1 = text key

/-- `set(value) == keys`. -/
def keysAre (fields : Fields) (keys : List String) : Bool :=
  keysWithin fields keys && keys.all (hasKey fields)

/-- `value == s`. -/
def isStr (v : Option Value) (s : Text) : Bool :=
  match v with
  | some (.str t) => t = s
  | _ => false

def isAnyStr : Option Value → Bool
  | some (.str _) => true
  | _ => false

def isBool : Option Value → Bool
  | some (.bool _) => true
  | _ => false

def isInt : Option Value → Bool
  | some (.int _) => true
  | _ => false

def intWithin (low high : Int) : Option Value → Bool
  | some (.int n) => low ≤ n && n ≤ high
  | _ => false

def isNull : Value → Bool
  | .null => true
  | _ => false

/-- `float(raw) == 1.0`: at most half a unit in the last place from it. -/
def floatIsOne (raw : Text) : Bool :=
  let whole := raw.takeWhile isDigit
  let (fraction, rest) := scanFraction (raw.dropWhile isDigit)
  let exponent := rest.drop 1
  let digits := decimal (whole ++ fraction.drop 1)
  let down := fraction.length - 1 + (if exponent.head? = some 0x2D then
    decimal (exponent.drop 1) else 0)
  let up := if exponent.head? = some 0x2D then 0
    else decimal (if exponent.head? = some 0x2B then exponent.drop 1 else exponent)
  let scaled := digits * 10 ^ up * 2 ^ 54
  raw.head? ≠ some 0x2D && (2 ^ 54 - 1) * 10 ^ down ≤ scaled && scaled ≤ (2 ^ 54 + 2) * 10 ^ down

/-- `value == True`. -/
def equalsTrue : Option Value → Bool
  | some (.bool b) => b
  | some (.int n) => n = 1
  | some (.float raw) => floatIsOne raw
  | _ => false

def isIdChar (c : Nat) : Bool :=
  (0x30 ≤ c && c ≤ 0x39) || (0x41 ≤ c && c ≤ 0x5A) || (0x61 ≤ c && c ≤ 0x7A) || c = 0x5F || c = 0x2D

/-- `_safe_id`. -/
def safeId : Option Value → Bool
  | some (.str s) => 1 ≤ s.length && s.length ≤ 64 && s.all isIdChar
  | _ => false

/-- `_positive`. -/
def positive (v : Option Value) : Bool := intWithin 1 1000000 v

def optionalString : Value → Bool
  | .null | .str _ => true
  | _ => false

def optionalI64 : Value → Bool
  | .null => true
  | v => intWithin (-(2 ^ 63)) (2 ^ 63 - 1) (some v)

/-- What `check` says of a field, if it is there. -/
def ifPresent (fields : Fields) (key : String) (check : Value → Bool) : Bool :=
  match get? fields key with
  | some v => check v
  | none => true

def asDict (v : Option Value) (reason : String) : Except String Fields :=
  match v with
  | some (.dict fields) => .ok fields
  | _ => .error reason

/-! ## Notifications -/

/-- `_validate_agent_message_delta`. -/
def validateAgentMessageDelta (params : Fields) (owner : Text) : Except String Unit := do
  require (keysAre params ["threadId", "turnId", "itemId", "delta"] = true) "rpc_envelope"
  require (isStr (get? params "threadId") owner = true) "agent_message_delta_thread"
  require ((isAnyStr (get? params "turnId") && isAnyStr (get? params "itemId")) = true)
    "agent_message_delta_identity"
  require (isAnyStr (get? params "delta") = true) "agent_message_delta_text"

/-- `_validate_rate_limit_window`. -/
def validateRateLimitWindow : Value → Except String Unit
  | .null => .ok ()
  | .dict window => do
    let reason := "account_rate_limits_window"
    require ((keysWithin window ["usedPercent", "windowDurationMins", "resetsAt"] &&
      hasKey window "usedPercent") = true) reason
    require (intWithin (-(2 ^ 31)) (2 ^ 31 - 1) (get? window "usedPercent") = true) reason
    require (ifPresent window "windowDurationMins" optionalI64 = true) reason
    require (ifPresent window "resetsAt" optionalI64 = true) reason
  | _ => .error "account_rate_limits_window"

def validateCredits (credits : Value) : Except String Unit := do
  let reason := "account_rate_limits_credits"
  let credits ← asDict (some credits) reason
  require ((keysWithin credits ["hasCredits", "unlimited", "balance"] &&
    hasKey credits "hasCredits" && hasKey credits "unlimited") = true) reason
  require ((isBool (get? credits "hasCredits") && isBool (get? credits "unlimited")) = true) reason
  require (ifPresent credits "balance" optionalString = true) reason

def validateIndividualLimit (individual : Value) : Except String Unit := do
  let individual ← asDict (some individual) "rpc_envelope"
  require (keysAre individual ["limit", "used", "remainingPercent", "resetsAt"] = true)
    "rpc_envelope"
  let reason := "account_rate_limits_spend"
  require ((isAnyStr (get? individual "limit") && isAnyStr (get? individual "used")) = true) reason
  require ((isInt (get? individual "remainingPercent") && isInt (get? individual "resetsAt")) =
    true) reason

/-- A check of a field that is there and is not null. -/
def ifNotNull (fields : Fields) (key : String) (check : Value → Except String Unit) :
    Except String Unit :=
  match get? fields key with
  | none | some .null => .ok ()
  | some v => check v

/-- `_validate_rate_limit_snapshot`. -/
def validateRateLimitSnapshot (value : Option Value) : Except String Unit := do
  let snapshot ← asDict value "rpc_envelope"
  require (keysWithin snapshot ["limitId", "limitName", "normalModelSlug", "primary", "secondary",
    "credits", "individualLimit", "spendControlReached", "planType", "rateLimitReachedType"] = true)
    "rpc_envelope"
  require (["limitId", "limitName", "normalModelSlug", "planType"].all
    (fun key => ifPresent snapshot key optionalString) = true) "account_rate_limits_shape"
  ifNotNull snapshot "primary" validateRateLimitWindow
  ifNotNull snapshot "secondary" validateRateLimitWindow
  ifNotNull snapshot "credits" validateCredits
  ifNotNull snapshot "individualLimit" validateIndividualLimit
  ifNotNull snapshot "spendControlReached" fun v =>
    require (isBool (some v) = true) "account_rate_limits_shape"
  ifNotNull snapshot "rateLimitReachedType" fun v =>
    require (rateLimitReachedTypes.any (fun t => isStr (some v) (text t)) = true)
      "account_rate_limits_shape"

/-- `_validate_account_notification`. -/
def validateAccountNotification (params : Fields) : Except String Unit := do
  require (keysAre params ["rateLimits"] = true) "rpc_envelope"
  validateRateLimitSnapshot (get? params "rateLimits")

/-! ## Requests -/

def jsonUniqueOf (result : Except Error Value) (duplicate invalid : String) :
    Except String Value :=
  match result with
  | .ok v => .ok v
  | .error .duplicateKey => .error duplicate
  | .error .invalid => .error invalid

/-- `_json_unique`; its reason for a constant that is no number is that of other texts here. -/
def jsonUnique (depth : Nat) (payload : List UInt8) : Except String Value :=
  jsonUniqueOf (loadsBytes depth payload) "rpc_duplicate_key" "rpc_json"

/-- The checks of one event of a delivery; its id and its action slot. -/
def deliveryEvent (event : Value) : Except String (Text × Text) := do
  let event ← asDict (some event) "tool_output_event_shape"
  require (keysAre event ["event_id", "event_revision", "kind", "payload_hash", "action_slot"] =
    true) "tool_output_event_shape"
  require ((safeId (get? event "event_id") && positive (get? event "event_revision")) = true)
    "tool_output_event_identity"
  require (["progress", "question", "result"].any
    (fun kind => isStr (get? event "kind") (text kind)) = true) "tool_output_event_kind"
  let hash ← expect ((get? event "payload_hash").bind Value.str?) "tool_output_event_hash"
  require (hash.length = 64 ∧ hash.all Library.isLowerHexDigit = true) "tool_output_event_hash"
  require (safeId (get? event "action_slot") = true) "tool_output_event_duplicate"
  let id ← expect ((get? event "event_id").bind Value.str?) "tool_output_event_identity"
  let slot ← expect ((get? event "action_slot").bind Value.str?) "tool_output_event_duplicate"
  return (id, slot)

/-- The loop over the events, with the ids and the action slots that it has met. -/
def deliveryEvents : List Text → List Text → List Value → Except String Unit
  | _, _, [] => .ok ()
  | ids, slots, event :: rest => do
    let (id, slot) ← deliveryEvent event
    require (id ∉ ids ∧ slot ∉ slots) "tool_output_event_duplicate"
    deliveryEvents (id :: ids) (slot :: slots) rest

/-- `_parse_delivery_output`. -/
def parseDeliveryOutput (depth : Nat) (output : Option Value) (owner : Text) :
    Except String Unit := do
  let output ← expect (output.bind Value.str?) "tool_output_size"
  let bytes ← expect (encodeUtf8 output) "tool_output_size"
  require (output ≠ [] ∧ bytes.length ≤ maxOutputBytes) "tool_output_size"
  let intent ← jsonUniqueOf (loads depth output) "tool_output_duplicate_key" "tool_output_json"
  let intent ← asDict (some intent) "tool_output_shape"
  require (keysAre intent ["version", "delivery_id", "controller_thread_id", "controller_epoch",
    "events", "payload_hash"] = true) "tool_output_shape"
  require ((intWithin 1 1 (get? intent "version") && safeId (get? intent "delivery_id")) = true)
    "tool_output_identity"
  require ((isStr (get? intent "controller_thread_id") owner &&
    safeId (get? intent "controller_thread_id")) = true) "tool_output_thread"
  require (positive (get? intent "controller_epoch") = true) "tool_output_epoch"
  match get? intent "events" with
  | some (.list events) => do
    require (1 ≤ events.length ∧ events.length ≤ 8) "tool_output_events"
    deliveryEvents [] [] events
  | _ => .error "tool_output_events"
  let body := intent.filter fun field => field.1 ≠ text "payload_hash"
  let bytes ← expect (encodeUtf8 (canonical (.dict body))) "tool_output_hash"
  require (isStr (get? intent "payload_hash") (Library.sha256Hex bytes) = true) "tool_output_hash"

/-- `_validate_turn_start`. -/
def validateTurnStart (depth : Nat) (params : Fields) (owner : Text) : Except String Unit := do
  require (keysAre params ["threadId", "input", "toolOutput"] = true) "turn_start_envelope"
  require (isStr (get? params "threadId") owner = true) "turn_start_target"
  match get? params "input" with
  | some (.list []) => .ok ()
  | _ => .error "turn_start_target"
  let toolOutput ← asDict (get? params "toolOutput") "tool_output_envelope"
  require (keysAre toolOutput ["name", "namespace", "output"] = true) "tool_output_envelope"
  require ((isStr (get? toolOutput "name") (text "g0_delivery") &&
    isStr (get? toolOutput "namespace") (text "orchestration")) = true) "tool_output_identity"
  parseDeliveryOutput depth (get? toolOutput "output") owner

/-- `params == expected`, for the parameters of `initialize`. -/
def isInitialize (params : Fields) : Bool :=
  keysAre params ["clientInfo", "capabilities"] &&
    match get? params "clientInfo", get? params "capabilities" with
    | some (.dict info), some (.dict capabilities) =>
      keysAre info ["name", "version"] && isStr (get? info "name") (text "g0-native-standalone") &&
        isStr (get? info "version") (text "0.1.0") && keysAre capabilities ["experimentalApi"] &&
        equalsTrue (get? capabilities "experimentalApi")
    | _, _ => false

def isTurnsList (params : Fields) (owner : Text) : Bool :=
  keysAre params ["threadId", "cursor", "limit", "sortDirection", "itemsView"] &&
    isStr (get? params "threadId") owner && isStr (get? params "sortDirection") (text "asc") &&
    isStr (get? params "itemsView") (text "full") && intWithin 1 64 (get? params "limit") &&
    ifPresent params "cursor" fun
      | .null => true
      | .str s => 0 < s.length && s.length ≤ 256
      | _ => false

/-- `validate_helper_rpc`. -/
def validateHelperRpc (depth : Nat) (message : Value) (owner : Text) : Except String Unit := do
  let fields ← asDict (some message) "native_wire_envelope"
  require (hasKey fields "jsonrpc" = false) "native_wire_envelope"
  let method ← expect ((get? fields "method").bind Value.str?) "rpc_method"
  if method = text "initialized" then
    require (keysAre fields ["method"] = true) "initialized_envelope"
  else do
    require (positive (get? fields "id") = true) "rpc_id"
    let params ← asDict (get? fields "params") "rpc_params"
    if method = text "initialize" then require (isInitialize params = true) "initialize_envelope"
    else if method = text "server/diagnostics" ∨ method = text "remoteControl/status/read" then
      require (params.isEmpty = true) "rpc_global_envelope"
    else if method = text "thread/read" then
      require ((keysAre params ["threadId", "includeTurns"] &&
        isStr (get? params "threadId") owner && equalsTrue (get? params "includeTurns")) = true)
        "rpc_thread_envelope"
    else if method = text "thread/turns/list" then
      require (isTurnsList params owner = true) "rpc_turns_envelope"
    else if method = text "turn/start" then validateTurnStart depth params owner
    else .error "rpc_method_forbidden"

/-! ## Answers -/

/-- `validate_helper_response`. -/
def validateHelperResponse (fields : Fields) (owner : Text) : Except String Unit := do
  require ((!hasKey fields "jsonrpc" &&
    (keysAre fields ["id", "result"] || keysAre fields ["id", "error"])) = true)
    "response_envelope"
  require (positive (get? fields "id") = true) "response_id"
  if hasKey fields "error" = true then do
    let error ← asDict (get? fields "error") "response_error"
    require ((keysAre error ["code", "message"] || keysAre error ["code", "message", "data"]) =
      true) "response_error"
    require ((isInt (get? error "code") && isAnyStr (get? error "message")) = true)
      "response_error"
  else do
    let result ← asDict (get? fields "result") "response_result"
    match get? result "thread" with
    | some (.dict thread) =>
      require (ifPresent thread "id" (fun v => isStr (some v) owner) = true)
        "response_thread_target"
    | _ => .ok ()
    require (ifPresent result "threadId" (fun v => isStr (some v) owner) = true)
      "response_thread_target"

/-- `set(params) == keys` and the thread of them is the owner's. -/
def ownNotification (params : Fields) (keys : List String) (owner : Text) : Bool :=
  keysAre params keys && isStr (get? params "threadId") owner

/-- The body of a notification that is allowed. -/
def validateNotification (method : Text) (params : Fields) (owner : Text) :
    Except String Unit := do
  if method = text "deprecationNotice" then
    require (((keysAre params ["summary"] || keysAre params ["summary", "details"]) &&
      isStr (get? params "summary") (text paginatedReadDeprecation) &&
      ifPresent params "details" isNull) = true) "deprecation_notice_envelope"
  else if method = text "item/agentMessage/delta" then validateAgentMessageDelta params owner
  else if method = text "account/rateLimits/updated" then validateAccountNotification params
  else if method = text "turn/started" ∨ method = text "turn/completed" then do
    require (ownNotification params ["threadId", "turn"] owner = true) "turn_notification_envelope"
    match get? params "turn" with
    | some (.dict turn) => require (isAnyStr (get? turn "id") = true) "turn_notification_body"
    | _ => .error "turn_notification_body"
  else if method = text "item/started" ∨ method = text "item/completed" then do
    let clock := if method = text "item/started" then "startedAtMs" else "completedAtMs"
    require (ownNotification params ["threadId", "turnId", "item", clock] owner = true)
      "item_notification_envelope"
    require (isAnyStr (get? params "turnId") = true) "item_notification_body"
    match get? params "item" with
    | some (.dict _) => .ok ()
    | _ => .error "item_notification_body"

/-- `validate_helper_server_message`. -/
def validateHelperServerMessage (message : Value) (owner : Text) : Except String Unit := do
  let fields ← asDict (some message) "response_envelope"
  require (hasKey fields "jsonrpc" = false) "response_envelope"
  require ((hasKey fields "id" && hasKey fields "method") = false) "server_request_forbidden"
  if hasKey fields "id" = true then validateHelperResponse fields owner
  else do
    let method ← expect ((get? fields "method").bind Value.str?) "server_notification_forbidden"
    require (serverNotifications.any (fun m => method = text m) = true ∧
      keysWithin fields ["method", "params", "emittedAtMs"] = true) "server_notification_forbidden"
    require (ifPresent fields "emittedAtMs"
      (fun v => intWithin (-(2 ^ 63)) (2 ^ 63 - 1) (some v)) = true)
      "server_notification_emitted_at_ms"
    let params ← match get? fields "params" with
      | none => .ok []
      | some v => asDict (some v) "server_notification_params"
    require (ifPresent params "threadId" (fun v => isStr (some v) owner) = true)
      "response_thread_target"
    validateNotification method params owner

/-! ## The gates -/

/-- The id of a message that has passed the checks. -/
def messageId (message : Value) : Option Int :=
  match message with
  | .dict fields => match get? fields "id" with
    | some (.int n) => some n
    | _ => none
  | _ => none

/-- `_complete_message` of the two gates, which share the ids of the requests in flight. -/
def helperAccept (depth : Nat) (owner : Text) (d : Direction) (pending : List Int)
    (payload : List UInt8) : Except String (List Int) := do
  let message ← jsonUnique depth payload
  match d with
  | .server => do
    validateHelperServerMessage message owner
    match messageId message with
    | none => return pending
    | some id => do
      require (id ∈ pending) "response_id_mismatch"
      return pending.erase id
  | .client => do
    validateHelperRpc depth message owner
    match messageId message with
    | none => return pending
    | some id => do
      require (id ∉ pending) "rpc_id_reused"
      return id :: pending

end Orchestrator.Native
