import Orchestrator.Bridge.Claim
import Orchestrator.Library.PythonEquality
import Orchestrator.Native.HelperPolicy

/-!
# Auditing captured histories

`delivery_audit.py`: whether the pages of a captured thread show a delivery, whether they are all of
it, and which events were acknowledged. `none` is a capture that is refused.
-/
namespace Orchestrator.Native
open Library PythonJson
open Bridge (isSafe isHash NativeEvent)

/-! ## Values -/

def dict? : Value → Option Fields
  | .dict fields => some fields
  | _ => none

def list? : Value → Option (List Value)
  | .list items => some items
  | _ => none

/-- `shape`. -/
def shape (v : Value) (required optional : List String) : Option Fields := do
  let fields ← dict? v
  guard (required.all (hasKey fields) = true ∧ keysWithin fields (required ++ optional) = true)
  return fields

/-- `safe`, with the text. -/
def safe (v : Option Value) : Option Text := do
  let s ← v.bind Value.str?
  guard (isSafe s = true)
  return s

/-- `positive`, with the number. -/
def positiveInt : Option Value → Option Int
  | some (.int n) => if 1 ≤ n ∧ n ≤ 1000000 then some n else none
  | _ => none

/-- `value is True`. -/
def isTrue : Option Value → Bool
  | some (.bool b) => b
  | _ => false

/-- The value is one of these strings. -/
def oneOf (v : Option Value) (strings : List String) : Option Text := do
  let s ← v.bind Value.str?
  guard (s ∈ strings.map text)
  return s

/-- The same, where a field may be missing. -/
def oneOfOr (fields : Fields) (key default : String) (strings : List String) : Option Text :=
  if hasKey fields key then oneOf (get? fields key) strings else some (text default)

/-- A list of the field, with at most so many items. -/
def listField (fields : Fields) (key : String) (limit : Nat) : Option (List Value) := do
  let items ← (get? fields key).bind list?
  guard (items.length ≤ limit)
  return items

/-! ## Envelopes -/

structure Envelope where
  value : Value
  deliveryId : Text
  controllerThreadId : Text
  controllerEpoch : Int
  events : List NativeEvent

def envelopeEvent (v : Value) : Option NativeEvent := do
  let fields ← shape v ["event_id", "event_revision", "kind", "payload_hash", "action_slot"] []
  let eventId ← safe (get? fields "event_id")
  let eventRevision ← positiveInt (get? fields "event_revision")
  let actionSlot ← safe (get? fields "action_slot")
  let kind ← oneOf (get? fields "kind") ["progress", "question", "result"]
  let payloadHash ← (get? fields "payload_hash").bind Value.str?
  guard (isHash payloadHash = true)
  return { eventId, eventRevision, kind, payloadHash, actionSlot }

/-- `envelope`. -/
def envelope (v : Value) : Option Envelope := do
  let fields ← shape v ["version", "delivery_id", "controller_thread_id", "controller_epoch",
    "events", "payload_hash"] []
  guard (intWithin 1 1 (get? fields "version") = true)
  let deliveryId ← safe (get? fields "delivery_id")
  let controllerThreadId ← safe (get? fields "controller_thread_id")
  let controllerEpoch ← positiveInt (get? fields "controller_epoch")
  let items ← listField fields "events" 8
  guard (1 ≤ items.length)
  let events ← items.mapM envelopeEvent
  guard ((events.map NativeEvent.eventId).Nodup ∧ (events.map NativeEvent.actionSlot).Nodup)
  let body ← encodeUtf8 (canonical (.dict (fields.filter fun field =>
    field.1 ≠ text "payload_hash")))
  guard (isStr (get? fields "payload_hash") (sha256Hex body) = true)
  return { value := v, deliveryId, controllerThreadId, controllerEpoch, events }

/-- `parse`. -/
def parse (depth : Nat) (s : Text) : Option Value := (loads depth s).toOption

/-! ## Items -/

/-- An item of a turn. -/
abbrev ItemKey := Text × Text

/-- The kind of an item, and its name and namespace up to equality. -/
structure Identity where
  kind : Text
  name : Normal
  namespaceName : Normal
  deriving DecidableEq

/-- `item.get(key)`, up to equality. -/
def getNormal (fields : Fields) (key : String) : Normal :=
  normal ((get? fields key).getD .null)

/-- What `audit` has seen of items: the last of a key is first. -/
structure Items where
  matched : List ItemKey := []
  observed : List (ItemKey × Text) := []
  identities : List (ItemKey × Identity) := []
  compaction : Bool := false

/-- The key is new, or has the value already. -/
def settled {β : Type} [DecidableEq β] (seen : List (ItemKey × β)) (key : ItemKey) (b : β) : Prop :=
  seen.lookup key = none ∨ seen.lookup key = some b

instance {β : Type} [DecidableEq β] (seen : List (ItemKey × β)) (key : ItemKey) (b : β) :
    Decidable (settled seen key b) := inferInstanceAs (Decidable (_ ∨ _))

def isDelivery (fields : Fields) : Bool :=
  isStr (get? fields "type") (text "functionCallOutput") &&
    isStr (get? fields "name") (text "g0_delivery")

/-- The envelope of an output, where there is one. -/
def deliveredEnvelope (depth : Nat) (fields : Fields) : Option Envelope := do
  let output ← (get? fields "output").bind Value.str?
  let found ← parse depth output
  envelope found

/-- `scan_item`, where the item is a delivery. -/
def scanDelivery (depth : Nat) (intent : Envelope) (s : Items) (key : ItemKey) (item : Value) :
    Option Items := do
  let fields ← shape item ["id", "type", "name", "output"] ["namespace"]
  guard (isStr (get? fields "namespace") (text "orchestration") = true)
  let found ← deliveredEnvelope depth fields
  let encoded := canonical found.value
  guard (settled s.observed key encoded)
  let s := { s with observed := (key, encoded) :: s.observed }
  if found.deliveryId ≠ intent.deliveryId then return s
  guard (Equal found.value intent.value)
  let matched := if key ∈ s.matched then s.matched else key :: s.matched
  guard (matched.length ≤ 32)
  return { s with matched }

/-- `scan_item`. -/
def scanItem (depth : Nat) (intent : Envelope) (s : Items) (turnId : Text) (item : Value) :
    Option Items := do
  let fields ← dict? item
  let id ← safe (get? fields "id")
  let kind ← (get? fields "type").bind Value.str?
  let identity : Identity := ⟨kind, getNormal fields "name", getNormal fields "namespace"⟩
  guard (settled s.identities (turnId, id) identity)
  let s := { s with
    identities := ((turnId, id), identity) :: s.identities
    compaction := s.compaction || kind = text "contextCompaction" }
  if isDelivery fields = true then scanDelivery depth intent s (turnId, id) item else return s

/-! ## Reads -/

/-- What makes two pages those of one list. -/
structure Query where
  method : Text
  sortDirection : Option Text
  turnId : Option Text
  itemsView : Option Text
  deriving DecidableEq

/-- What `audit` has seen of reads. -/
structure AuditState where
  items : Items := {}
  requestIds : List Int := []
  complete : Bool
  previousNext : Option Text := none
  previousQuery : Option Query := none

def itemsViews : List String := ["full", "summary", "notLoaded"]

/-- `scan_turn`. -/
def scanTurn (depth : Nat) (intent : Envelope) (full : Bool) (s : AuditState) (turn : Value) :
    Option AuditState := do
  let fields ← shape turn ["id", "status", "items"]
    ["itemsView", "error", "startedAt", "completedAt", "durationMs"]
  let id ← safe (get? fields "id")
  let _ ← oneOf (get? fields "status") ["inProgress", "completed", "failed", "interrupted"]
  let items ← listField fields "items" 64
  let view ← oneOfOr fields "itemsView" "full" itemsViews
  if full = false ∨ view ≠ text "full" then return { s with complete := false }
  let items ← items.foldlM (fun s item => scanItem depth intent s id item) s.items
  return { s with items }

/-- A `thread/read`. `single` is whether there is no other read. -/
def readThread (depth : Nat) (intent : Envelope) (single : Bool) (s : AuditState)
    (params result : Value) : Option AuditState := do
  let params ← shape params ["threadId"] ["includeTurns"]
  guard (isStr (get? params "threadId") intent.controllerThreadId = true)
  guard (isTrue (get? params "includeTurns") = true)
  let result ← shape result ["thread"] []
  let thread ← (get? result "thread").bind dict?
  guard (isStr (get? thread "id") intent.controllerThreadId = true)
  let turns ← listField thread "turns" 64
  let paginated := isStr (get? thread "historyMode") (text "paginated")
  let s := if paginated = true ∨ single = false then { s with complete := false } else s
  turns.foldlM (scanTurn depth intent true) s

/-- A cursor of a page, where it is a valid one. -/
def cursorOf (fields : Fields) (key : String) : Option (Option Text) :=
  match get? fields key with
  | none | some .null => some none
  | some (.str s) => if 0 < s.length ∧ s.length ≤ 256 then some (some s) else none
  | some _ => none

/-- The text of a field that may be missing. -/
def strField (fields : Fields) (key : String) : Option Text := (get? fields key).bind Value.str?

/-- An entry of an items page, scanned. -/
def scanEntry (depth : Nat) (intent : Envelope) (turnId : Option Text) (s : Items) (entry : Value) :
    Option Items := do
  let fields ← shape entry ["turnId", "item"] []
  let id ← safe (get? fields "turnId")
  guard (turnId = none ∨ turnId = some id)
  let item ← get? fields "item"
  scanItem depth intent s id item

/-- A page of a list. -/
def readPage (depth : Nat) (intent : Envelope) (s : AuditState) (method : Text)
    (params result : Value) : Option AuditState := do
  let ofItems := method = text "thread/items/list"
  let params ← shape params ["threadId"]
    (["cursor", "limit", "sortDirection"] ++ [if ofItems then "turnId" else "itemsView"])
  guard (isStr (get? params "threadId") intent.controllerThreadId = true)
  let result ← shape result ["data"] ["nextCursor", "backwardsCursor"]
  let data ← listField result "data" 64
  let cursor ← cursorOf params "cursor"
  let next ← cursorOf result "nextCursor"
  let _ ← cursorOf result "backwardsCursor"
  guard (hasKey params "limit" = true → intWithin 1 64 (get? params "limit") = true)
  let _ ← oneOfOr params "sortDirection" (if ofItems then "asc" else "desc") ["asc", "desc"]
  guard (hasKey params "turnId" = true → (safe (get? params "turnId")).isSome = true)
  let query : Query := ⟨method, strField params "sortDirection", strField params "turnId",
    strField params "itemsView"⟩
  let broken := cursor ≠ s.previousNext ∨
    s.previousQuery ≠ none ∧ (s.previousQuery ≠ some query ∨ s.previousNext = none)
  let s := { s with
    complete := s.complete && !broken
    previousQuery := some query
    previousNext := next }
  if ofItems then
    let items ← data.foldlM (scanEntry depth intent query.turnId) s.items
    return { s with items }
  else
    let view ← oneOfOr params "itemsView" "summary" itemsViews
    let full := view = text "full"
    data.foldlM (scanTurn depth intent full) { s with complete := s.complete && full }

/-- A round of the loop of `audit`. -/
def auditRead (depth : Nat) (intent : Envelope) (single : Bool) (s : AuditState) (read : Value) :
    Option AuditState := do
  let fields ← shape read ["request", "response"] []
  let request ← (get? fields "request").bind (shape · ["id", "method", "params"] [])
  let response ← (get? fields "response").bind (shape · ["id", "result"] [])
  let id ← positiveInt (get? request "id")
  guard (intWithin id id (get? response "id") = true)
  guard (id ∉ s.requestIds)
  let s := { s with requestIds := id :: s.requestIds }
  let method ← oneOf (get? request "method")
    ["thread/read", "thread/turns/list", "thread/items/list"]
  let params ← get? request "params"
  let result ← get? response "result"
  if method = text "thread/read" then readThread depth intent single s params result
  else readPage depth intent s method params result

/-! ## Verdicts -/

/-- A round of the loop over acknowledgements, which keeps the first decision of each event. -/
def auditAck (intent : Envelope) (decisions : List (Text × Text)) (record : Value) :
    Option (List (Text × Text)) := do
  let fields ← shape record ["delivery_id", "controller_thread_id", "controller_epoch", "event_id",
    "event_revision", "event_hash", "action_slot", "decision", "command_id", "decision_count",
    "effect_count"] []
  guard (isStr (get? fields "delivery_id") intent.deliveryId = true ∧
    isStr (get? fields "controller_thread_id") intent.controllerThreadId = true)
  guard (intWithin intent.controllerEpoch intent.controllerEpoch (get? fields "controller_epoch") =
    true)
  let eventId ← strField fields "event_id"
  let event ← intent.events.find? (fun event => event.eventId = eventId)
  guard (intWithin event.eventRevision event.eventRevision (get? fields "event_revision") = true)
  guard (isStr (get? fields "event_hash") event.payloadHash = true ∧
    isStr (get? fields "action_slot") event.actionSlot = true)
  let decision ← oneOf (get? fields "decision") ["handled", "waiting_user", "stale", "rejected"]
  let _ ← safe (get? fields "command_id")
  guard (intWithin 1 1 (get? fields "decision_count") = true)
  let effects := if decision = text "handled" then 1 else 0
  guard (intWithin effects effects (get? fields "effect_count") = true)
  match decisions.lookup eventId with
  | some previous => guard (previous = decision); return decisions
  | none => return decisions ++ [(eventId, decision)]

inductive Evidence where
  | exactHistoryMarker | uncertain
  deriving DecidableEq, Repr

def Evidence.text : Evidence → String
  | .exactHistoryMarker => "exact_history_marker"
  | .uncertain => "uncertain"

inductive TransportGate where
  | historyMatchObserved | blockedUncertain
  deriving DecidableEq, Repr

def TransportGate.text : TransportGate → String
  | .historyMatchObserved => "history_match_observed"
  | .blockedUncertain => "blocked_uncertain"

structure AuditReport where
  version : Nat := 1
  scope : String := "offline_captured_data_only"
  sourceServiceVerified : Bool := false
  deliveryId : Text
  transportEvidence : Evidence
  matchedHistoryItems : Nat
  duplicateDisplays : Nat
  capturedPageChainComplete : Bool
  compactionSeen : Bool
  absenceProof : Bool := false
  resendAuthorized : Bool := false
  transportGate : TransportGate
  acknowledgedEventIds : List Text
  pendingEventIds : List Text
  waitingUserEventIds : List Text
  uniqueAckSlots : Nat
  businessAckComplete : Bool
  deriving DecidableEq, Repr

def audit (depth : Nat) (data : Value) : Option AuditReport := do
  let fields ← shape data ["version", "intent", "reads", "acks"] []
  guard (intWithin 1 1 (get? fields "version") = true)
  let intent ← (get? fields "intent").bind envelope
  let reads ← listField fields "reads" 16
  let acks ← listField fields "acks" 32
  let s ← reads.foldlM (auditRead depth intent (reads.length = 1)) { complete := !reads.isEmpty }
  let decisions ← acks.foldlM (auditAck intent) []
  let ids := intent.events.map NativeEvent.eventId
  let found := s.items.matched ≠ []
  return {
    deliveryId := intent.deliveryId
    transportEvidence := if found then .exactHistoryMarker else .uncertain
    matchedHistoryItems := s.items.matched.length
    duplicateDisplays := s.items.matched.length - 1
    capturedPageChainComplete := s.complete && s.previousNext = none
    compactionSeen := s.items.compaction
    transportGate := if found then .historyMatchObserved else .blockedUncertain
    acknowledgedEventIds := ids.filter fun id => (decisions.lookup id).isSome
    pendingEventIds := ids.filter fun id => (decisions.lookup id).isNone
    waitingUserEventIds := ids.filter fun id => decisions.lookup id = some (text "waiting_user")
    uniqueAckSlots := decisions.length
    businessAckComplete := decisions.length = intent.events.length }

end Orchestrator.Native
