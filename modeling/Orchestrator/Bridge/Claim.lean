import Orchestrator.Bridge.Attachment
import Orchestrator.Library.PythonDumps
import Orchestrator.Library.Sha256

/-!
# Claims

What `prepare_and_claim` makes of the events of a task: the events as the native owner and as the
control plane know them, and the files of a batch. A delivery is named by a digest of its thread,
epoch, task and events.
-/
namespace Orchestrator.Bridge
open Library PythonJson

/-- `_SAFE.fullmatch`. -/
def isSafe (s : Text) : Bool :=
  1 ≤ s.length && s.length ≤ 64 && s.all fun c =>
    (0x41 ≤ c && c ≤ 0x5A) || (0x61 ≤ c && c ≤ 0x7A) || (0x30 ≤ c && c ≤ 0x39) ||
      c = 0x5F || c = 0x2D

/-- `_HASH.fullmatch`. -/
def isHash (s : Text) : Bool := s.length = 64 && s.all isLowerHexDigit

/-- An event as the control plane returns it. -/
structure Row where
  version : Int
  taskId : Text
  eventId : Text
  actionSlot : Text
  kind : Text
  eventRevision : Int
  workRevision : Int
  payloadHash : Text
  deriving DecidableEq, Repr

structure NativeEvent where
  eventId : Text
  eventRevision : Int
  kind : Text
  payloadHash : Text
  actionSlot : Text
  deriving DecidableEq, Repr

structure SourceEvent where
  nativeEventId : Text
  nativeActionSlot : Text
  eventId : Text
  eventRevision : Int
  payloadHash : Text
  actionSlot : Text
  kind : Text
  workRevision : Int
  deriving DecidableEq, Repr

/-- `_alias`. -/
def aliasOf (tag : String) (value : Text) : Except BridgeError Text := do
  let bytes ← expect (encodeUtf8 value) .system
  .ok (text tag ++ (sha256Hex bytes).take 32)

def deliverable : List Text := ["question", "result", "failed", "unknown", "stopped"].map text

/-- The loop of `_project_events`. -/
def projectRows (taskId : Text) :
    List Text → List Text → List Row → Except BridgeError (List NativeEvent × List SourceEvent)
  | _, _, [] => .ok ([], [])
  | aliases, slots, row :: rows => do
    require (row.version = 1 ∧ row.taskId = taskId) .eventOwner
    require ((1 ≤ row.eventId.length ∧ row.eventId.length ≤ 256) ∧
      1 ≤ row.actionSlot.length ∧ row.actionSlot.length ≤ 256) .eventIdentity
    require (1 ≤ row.eventRevision ∧ 1 ≤ row.workRevision) .eventRevision
    require (row.kind ∈ deliverable ∧ isHash row.payloadHash = true) .eventDeliveryClass
    let eventAlias ← aliasOf "e_" row.eventId
    let slotAlias ← aliasOf "s_" row.actionSlot
    require (eventAlias ∉ aliases ∧ slotAlias ∉ slots) .eventAliasConflict
    let kind := if row.kind = text "question" ∨ row.kind = text "result" then row.kind
      else text "result"
    let (native, source) ← projectRows taskId (eventAlias :: aliases) (slotAlias :: slots) rows
    .ok (⟨eventAlias, row.eventRevision, kind, row.payloadHash, slotAlias⟩ :: native,
      ⟨eventAlias, slotAlias, row.eventId, row.eventRevision, row.payloadHash, row.actionSlot,
        row.kind, row.workRevision⟩ :: source)

/-- `_project_events`. -/
def projectEvents (taskId : Text) (rows : List Row) :
    Except BridgeError (List NativeEvent × List SourceEvent) := do
  require (isSafe taskId = true ∧ 1 ≤ rows.length ∧ rows.length ≤ 8) .eventsShape
  projectRows taskId [] [] rows

/-! ## Files -/

structure Intent where
  version : Int
  deliveryId : Text
  nonce : Text
  controllerThread : Text
  controllerEpoch : Int
  revision : Int
  state : Text
  events : List NativeEvent
  payloadHash : Text
  deriving DecidableEq, Repr

structure SendClaim where
  version : Int
  status : Text
  deliveryId : Text
  controllerThread : Text
  controllerEpoch : Int
  revision : Int
  intentSha256 : Text
  deriving DecidableEq, Repr

structure OwnerBinding where
  version : Int
  ownerContextSha256 : Text
  nonce : Text
  controllerThread : Text
  revision : Int
  deriving DecidableEq, Repr

structure SourceFile where
  version : Int
  taskId : Text
  events : List SourceEvent
  deriving DecidableEq, Repr

inductive Status where
  | pending | sending | transportAccepted | deliveryUncertain | historyConfirmed | controllerAcked
  deriving DecidableEq, Repr

def Status.name : Status → String
  | .pending => "pending"
  | .sending => "sending"
  | .transportAccepted => "transport_accepted"
  | .deliveryUncertain => "delivery_uncertain"
  | .historyConfirmed => "history_confirmed"
  | .controllerAcked => "controller_acked"

/-- The place of a status in the order. -/
def Status.rank : Status → Nat
  | .pending => 0
  | .sending => 1
  | .transportAccepted => 2
  | .deliveryUncertain => 3
  | .historyConfirmed => 4
  | .controllerAcked => 5

/-- `_SLOT_BLOCKING`. -/
def Status.blocks (s : Status) : Prop :=
  s ∈ [.pending, .sending, .transportAccepted, .deliveryUncertain]

instance (s : Status) : Decidable s.blocks := inferInstanceAs (Decidable (_ ∈ _))

structure StatusFile where
  version : Int
  deliveryId : Text
  controllerThread : Text
  controllerEpoch : Int
  revision : Int
  state : Status
  transportStatus : String
  nativeTurnId : Option Text := none
  uncertainReason : Option Text := none
  historyProofSha256 : Option Text := none
  nativeItemId : Option Text := none
  controllerAckSha256 : Option Text := none
  deriving DecidableEq, Repr

/-- `_native_envelope`. -/
structure Envelope where
  version : Int
  deliveryId : Text
  controllerThreadId : Text
  controllerEpoch : Int
  events : List NativeEvent
  payloadHash : Text
  deriving DecidableEq, Repr

/-! ## Their JSON -/

def field (name : String) (v : Value) : Text × Value := (text name, v)

def word (s : String) : Value := .str (text s)

def NativeEvent.value (e : NativeEvent) : Value :=
  .dict [field "event_id" (.str e.eventId), field "event_revision" (.int e.eventRevision),
    field "kind" (.str e.kind), field "payload_hash" (.str e.payloadHash),
    field "action_slot" (.str e.actionSlot)]

def SourceEvent.value (e : SourceEvent) : Value :=
  .dict [field "native_event_id" (.str e.nativeEventId),
    field "native_action_slot" (.str e.nativeActionSlot), field "event_id" (.str e.eventId),
    field "event_revision" (.int e.eventRevision), field "payload_hash" (.str e.payloadHash),
    field "action_slot" (.str e.actionSlot), field "kind" (.str e.kind),
    field "work_revision" (.int e.workRevision)]

def Intent.value (i : Intent) : Value :=
  .dict [field "version" (.int i.version), field "delivery_id" (.str i.deliveryId),
    field "nonce" (.str i.nonce), field "controller_thread" (.str i.controllerThread),
    field "controller_epoch" (.int i.controllerEpoch), field "revision" (.int i.revision),
    field "state" (.str i.state), field "events" (.list (i.events.map NativeEvent.value)),
    field "payload_hash" (.str i.payloadHash)]

def SendClaim.value (c : SendClaim) : Value :=
  .dict [field "version" (.int c.version), field "status" (.str c.status),
    field "delivery_id" (.str c.deliveryId), field "controller_thread" (.str c.controllerThread),
    field "controller_epoch" (.int c.controllerEpoch), field "revision" (.int c.revision),
    field "intent_sha256" (.str c.intentSha256)]

def SourceFile.value (f : SourceFile) : Value :=
  .dict [field "version" (.int f.version), field "task_id" (.str f.taskId),
    field "events" (.list (f.events.map SourceEvent.value))]

def StatusFile.value (f : StatusFile) : Value :=
  let optional (name : String) (s : Option Text) : Fields :=
    (s.map fun s => field name (.str s)).toList
  .dict ([field "version" (.int f.version), field "delivery_id" (.str f.deliveryId),
    field "controller_thread" (.str f.controllerThread),
    field "controller_epoch" (.int f.controllerEpoch), field "revision" (.int f.revision),
    field "state" (word f.state.name), field "transport_status" (word f.transportStatus)] ++
    optional "native_turn_id" f.nativeTurnId ++ optional "uncertain_reason" f.uncertainReason ++
    optional "history_proof_sha256" f.historyProofSha256 ++
    optional "native_item_id" f.nativeItemId ++
    optional "controller_ack_sha256" f.controllerAckSha256)

/-- The fields of an envelope that its hash is of. -/
def Envelope.body (e : Envelope) : Fields :=
  [field "version" (.int e.version), field "delivery_id" (.str e.deliveryId),
    field "controller_thread_id" (.str e.controllerThreadId),
    field "controller_epoch" (.int e.controllerEpoch),
    field "events" (.list (e.events.map NativeEvent.value))]

/-- The SHA-256 of the canonical JSON of a value whose texts have an encoding. -/
def hashOf (v : Value) : Text := sha256Hex ((encodeUtf8 (canonical v)).getD [])

/-- The size of the file that `_write_exclusive` writes. -/
def fileSize (v : Value) : Nat := ((encodeUtf8 (canonical v)).getD []).length + 1

/-- `_go_intent_hash`. Its JSON is all ASCII. -/
def goIntentHash (i : Intent) : Text :=
  let ordered : Value :=
    .dict [field "version" (.int i.version), field "delivery_id" (.str i.deliveryId),
      field "nonce" (.str i.nonce), field "controller_thread" (.str i.controllerThread),
      field "controller_epoch" (.int i.controllerEpoch), field "revision" (.int i.revision),
      field "state" (.str []), field "events" (.list (i.events.map NativeEvent.value)),
      field "payload_hash" (.str [])]
  sha256Hex ((dumps true ordered).map UInt8.ofNat)

/-- `_native_envelope`. -/
def nativeEnvelope (i : Intent) : Envelope :=
  let e : Envelope := ⟨1, i.deliveryId, i.controllerThread, i.controllerEpoch, i.events, []⟩
  { e with payloadHash := hashOf (.dict e.body) }

/-- The id of a delivery. -/
def deliveryIdOf (a : Attachment) (taskId : Text) (source : List SourceEvent) :
    Except BridgeError Text := do
  let seed : Value := .dict [field "thread" (.str a.controllerThreadId),
    field "epoch" (.int a.controllerEpoch), field "task" (.str taskId),
    field "events" (.list (source.map SourceEvent.value))]
  let bytes ← expect (encodeUtf8 (canonical seed)) .system
  .ok (text "d_" ++ (sha256Hex bytes).take 40)

/-! ## A request -/

/-- What `prepare_and_claim` knows before it takes the lock. -/
structure Request where
  attachment : Attachment
  taskId : Text
  rows : List Row
  native : List NativeEvent
  source : List SourceEvent
  id : Text
  projected : projectEvents taskId rows = .ok (native, source)
  named : deliveryIdOf attachment taskId source = .ok id

/-- The request of the arguments, if they are accepted. -/
def requestOf (attachment : Attachment) (taskId : Text) (rows : List Row) :
    Except BridgeError Request :=
  match projected : projectEvents taskId rows with
  | .error e => .error e
  | .ok (native, source) => match named : deliveryIdOf attachment taskId source with
    | .error e => .error e
    | .ok id => .ok ⟨attachment, taskId, rows, native, source, id, projected, named⟩

namespace Request
variable (r : Request)

def thread : Text := r.attachment.controllerThreadId

def epoch : Int := r.attachment.controllerEpoch

def intent : Intent :=
  let i : Intent := ⟨1, r.id, r.id, r.thread, r.epoch, 1, text "prepared", r.native, []⟩
  { i with payloadHash := goIntentHash i }

def claim : SendClaim := ⟨1, text "claimed", r.id, r.thread, r.epoch, 1, hashOf r.intent.value⟩

def ownerBinding : OwnerBinding := ⟨1, r.attachment.ownerContextSha256, r.id, r.thread, 1⟩

def sourceFile : SourceFile := ⟨1, r.taskId, r.source⟩

def statusFile : StatusFile :=
  { version := 1, deliveryId := r.id, controllerThread := r.thread, controllerEpoch := r.epoch
    revision := 1, state := .pending, transportStatus := "ready" }

end Request
end Orchestrator.Bridge
