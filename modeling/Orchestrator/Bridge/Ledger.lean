import Orchestrator.Bridge.Claim
import Orchestrator.Library.Sections

/-!
# The delivery ledger

`DeliveryLedger`, one file operation after another, under its lock. A batch is a directory of six
files that is written beside the others and renamed once it is whole; afterwards only its status
is replaced, by a rename once more.
-/
namespace Orchestrator.Bridge
open Library PythonJson

/-! ## Directories -/

/-- The directory of a batch, or of one that is being written; `stages` are the files
`.batch-status-<pid>.tmp`. -/
structure BatchDir where
  owner : Option (File Attachment) := none
  binding : Option (File OwnerBinding) := none
  intent : Option (File Intent) := none
  claim : Option (File SendClaim) := none
  source : Option (File SourceFile) := none
  status : Option (File StatusFile) := none
  stages : Nat → Option (File StatusFile) := fun _ => none

/-- The files of a batch, in the order in which they are written. -/
inductive BatchFile where
  | owner | binding | intent | claim | source | status
  deriving DecidableEq, Repr

def BatchFile.all : List BatchFile := [.owner, .binding, .intent, .claim, .source, .status]

/-- The root: the batches that can be seen, by their ids, and the directories `.<id>.stage`. -/
structure LedgerDir where
  batches : List (Text × BatchDir) := []
  stages : Text → Option BatchDir := fun _ => none

namespace BatchDir

/-- `_write_exclusive`, once the file is there (`done` is false) or its text is. -/
def put (d : BatchDir) (r : Request) (done : Bool) : BatchFile → BatchDir
  | .owner => { d with owner := some (if done = true then .whole r.attachment else .torn) }
  | .binding => { d with binding := some (if done = true then .whole r.ownerBinding else .torn) }
  | .intent => { d with intent := some (if done = true then .whole r.intent else .torn) }
  | .claim => { d with claim := some (if done = true then .whole r.claim else .torn) }
  | .source => { d with source := some (if done = true then .whole r.sourceFile else .torn) }
  | .status => { d with status := some (if done = true then .whole r.statusFile else .torn) }

/-- A directory with one file less; `none` for one that has none. -/
def unlinkOne (d : BatchDir) : Option BatchDir :=
  if d.owner ≠ none then some { d with owner := none }
  else if d.binding ≠ none then some { d with binding := none }
  else if d.intent ≠ none then some { d with intent := none }
  else if d.claim ≠ none then some { d with claim := none }
  else if d.source ≠ none then some { d with source := none }
  else if d.status ≠ none then some { d with status := none }
  else none

end BatchDir

namespace LedgerDir
variable (s : LedgerDir)

def find? (id : Text) : Option BatchDir := (s.batches.find? (·.1 = id)).map (·.2)

/-- The directory of a batch that can be seen. -/
def set (id : Text) (d : BatchDir) : LedgerDir :=
  { s with batches := s.batches.map fun batch => if batch.1 = id then (id, d) else batch }

def setStage (id : Text) (d : Option BatchDir) : LedgerDir :=
  { s with stages := Function.update s.stages id d }

end LedgerDir

/-! ## Loading -/

/-- `DeliveryBatch`. -/
structure Batch where
  deliveryId : Text
  taskId : Text
  controllerThreadId : Text
  controllerEpoch : Int
  status : Status
  envelope : Envelope
  sourceEvents : List SourceEvent
  historyProofSha256 : Option Text
  nativeTurnId : Option Text
  nativeItemId : Option Text
  deriving DecidableEq, Repr

/-- A source event beside the one that the owner gets. -/
def mapped (source : SourceEvent) (native : NativeEvent) : Bool :=
  source.nativeEventId = native.eventId && source.nativeActionSlot = native.actionSlot &&
    source.payloadHash = native.payloadHash && source.eventRevision = native.eventRevision

/-- `_load_unlocked`, of a directory that is there; `size` is that of the JSON of an
attachment. -/
def BatchDir.load (size : Attachment → Nat) (d : BatchDir) (id : Text) :
    Except BridgeError Batch := do
  let intent ← stableJson (fileSize ·.value) d.intent
  let claim ← stableJson (fileSize ·.value) d.claim
  let status ← stableJson (fileSize ·.value) d.status
  let source ← stableJson (fileSize ·.value) d.source
  let owner ← stableJson size d.owner
  require (intent.deliveryId = id ∧ claim.deliveryId = id ∧ status.deliveryId = id) .deliveryChanged
  require (intent.controllerThread = status.controllerThread ∧
    status.controllerThread = owner.controllerThreadId) .deliveryOwnerChanged
  require (intent.controllerEpoch = status.controllerEpoch ∧
    status.controllerEpoch = owner.controllerEpoch) .deliveryEpochChanged
  require (intent.payloadHash = goIntentHash intent) .intentHash
  require (claim.intentSha256 = hashOf intent.value ∧ claim.status = text "claimed") .claimChanged
  require (source.taskId ≠ [] ∧ source.events.length = intent.events.length) .sourceMapping
  require (∀ pair ∈ source.events.zip intent.events, mapped pair.1 pair.2 = true) .sourceMapping
  require (∀ proof ∈ status.historyProofSha256, isHash proof = true) .historyProof
  .ok ⟨id, source.taskId, intent.controllerThread, intent.controllerEpoch, status.state,
    nativeEnvelope intent, source.events, status.historyProofSha256, status.nativeTurnId,
    status.nativeItemId⟩

/-- `_load_unlocked`. -/
def LedgerDir.load (size : Attachment → Nat) (s : LedgerDir) (id : Text) :
    Except BridgeError Batch := do
  require (isSafe id = true ∧ (text "d_").isPrefixOf id = true) .deliveryId
  let d ← expect (s.find? id) .deliveryMissing
  d.load size id

/-- The scan of `prepare_and_claim`: no batch of the thread blocks its slot. -/
def LedgerDir.scan (size : Attachment → Nat) (s : LedgerDir) (thread : Text) :
    List (Text × BatchDir) → Except BridgeError Unit
  | [] => .ok ()
  | (id, _) :: rest => do
    let batch ← s.load size id
    if batch.controllerThreadId = thread ∧ batch.status.blocks then
      .error (if batch.status = .deliveryUncertain then .deliverySlotUncertain
        else .deliverySlotBusy)
    else s.scan size thread rest

/-! ## Transitions -/

/-- The five calls of `_transition`. -/
inductive Transition where
  | markSending
  | markTransportAccepted (turn : Text)
  | markUncertain (reason : Text)
  | confirmHistory (proof turn item : Text)
  | markControllerAcked (ack : Text)
  deriving DecidableEq, Repr

namespace Transition

/-- The checks of the arguments. -/
def accepts : Transition → Prop
  | .markSending => True
  | .markTransportAccepted turn => isSafe turn = true
  | .markUncertain reason => isSafe reason = true
  | .confirmHistory proof turn item => isHash proof = true ∧ isSafe turn = true ∧ isSafe item = true
  | .markControllerAcked ack => isHash ack = true

def allowed : Transition → List Status
  | .markSending => [.pending]
  | .markTransportAccepted _ => [.sending]
  | .markUncertain _ | .confirmHistory _ _ _ => [.sending, .transportAccepted, .deliveryUncertain]
  | .markControllerAcked _ => [.historyConfirmed]

def state : Transition → Status
  | .markSending => .sending
  | .markTransportAccepted _ => .transportAccepted
  | .markUncertain _ => .deliveryUncertain
  | .confirmHistory _ _ _ => .historyConfirmed
  | .markControllerAcked _ => .controllerAcked

/-- `dict(current, state=state, **fields)`. -/
def apply (t : Transition) (f : StatusFile) : StatusFile :=
  let f := { f with state := t.state }
  match t with
  | .markSending => { f with transportStatus := "ready" }
  | .markTransportAccepted turn =>
    { f with transportStatus := "accepted", nativeTurnId := some turn }
  | .markUncertain reason =>
    { f with transportStatus := "uncertain", uncertainReason := some reason }
  | .confirmHistory proof turn item =>
    { f with
      transportStatus := "confirmed"
      historyProofSha256 := some proof
      nativeTurnId := some turn
      nativeItemId := some item }
  | .markControllerAcked ack => { f with controllerAckSha256 := some ack }

/-- The turn that `confirm_history` compares before it takes the lock for the transition. -/
def checkedTurn : Transition → Option Text
  | .confirmHistory _ turn _ => some turn
  | _ => none

end Transition

/-! ## Operations -/

inductive LedgerCall where
  | prepare (r : Request)
  | transition (id : Text) (t : Transition)

/-- The operations of `prepare_and_claim`, then those of `confirm_history` and `_transition`. -/
inductive LedgerOp where
  | look (r : Request)
  | mkdir (r : Request)
  | create (r : Request) (f : BatchFile) (rest : List BatchFile)
  | fill (r : Request) (f : BatchFile) (rest : List BatchFile)
  | publish (r : Request)
  | published (r : Request)
  | clean (r : Request) (e : BridgeError)
  | check (id : Text) (t : Transition) (turn : Text)
  | enter (id : Text) (t : Transition)
  | stage (id : Text) (t : Transition) (f : StatusFile)
  | fillStage (id : Text) (t : Transition) (f : StatusFile)
  | rename (id : Text) (t : Transition)
  | renamed (id : Text) (t : Transition)

/-- A call by a process, and the operation that it is at. -/
structure LedgerAt where
  pid : Nat
  call : LedgerCall
  op : LedgerOp

/-- What is returned, with its call. -/
abbrev LedgerResult := LedgerCall × Except BridgeError Batch

namespace LedgerAt
variable (size : Attachment → Nat) (b : LedgerAt) (s : LedgerDir)

def go (op : LedgerOp) : Leads LedgerAt LedgerResult := .go { b with op := op }

def done (r : Except BridgeError Batch) : Leads LedgerAt LedgerResult := .done (b.call, r)

/-- The `except` branch: what is in the stage is removed, file by file. -/
def clean (r : Request) (e : BridgeError) : LedgerDir × Leads LedgerAt LedgerResult :=
  match s.stages r.id with
  | none => (s, b.done (.error e))
  | some d => match d.unlinkOne with
    | some d => (s.setStage r.id (some d), b.go (.clean r e))
    | none => (s.setStage r.id none, b.done (.error e))

def look (r : Request) : Leads LedgerAt LedgerResult :=
  if (s.find? r.id).isSome = true then
    b.done (do
      let existing ← s.load size r.id
      require (existing.sourceEvents = r.source) .deliveryConflict
      .ok existing)
  else match s.scan size r.thread s.batches with
    | .error e => b.done (.error e)
    | .ok () => b.go (.mkdir r)

/-- The operation after a file has been written. -/
def nextFile (r : Request) : List BatchFile → LedgerOp
  | [] => .publish r
  | f :: rest => .create r f rest

def step : LedgerDir × Leads LedgerAt LedgerResult :=
  match b.op with
  | .look r => (s, b.look size s r)
  | .mkdir r =>
    if s.stages r.id = none then (s.setStage r.id (some {}), b.go (nextFile r BatchFile.all))
    else (s, b.go (.clean r .system))
  | .create r f rest =>
    (s.setStage r.id ((s.stages r.id).map (·.put r false f)), b.go (.fill r f rest))
  | .fill r f rest =>
    (s.setStage r.id ((s.stages r.id).map (·.put r true f)), b.go (nextFile r rest))
  | .publish r => match s.stages r.id with
    | some d => ({ s.setStage r.id none with batches := s.batches ++ [(r.id, d)] },
        b.go (.published r))
    | none => (s, b.go (.clean r .system))
  | .published r => (s, b.done (s.load size r.id))
  | .clean r e => b.clean s r e
  | .check id t turn => match s.load size id with
    | .error e => (s, b.done (.error e))
    | .ok batch =>
      if batch.nativeTurnId = none ∨ batch.nativeTurnId = some turn then
        (s, .yield { b with op := .enter id t })
      else (s, b.done (.error .nativeTurnChanged))
  | .enter id t => match s.load size id, s.find? id with
    | .error e, _ => (s, b.done (.error e))
    | .ok batch, some ⟨_, _, _, _, _, some (.whole f), _⟩ =>
      if batch.status ∈ t.allowed then (s, b.go (.stage id t (t.apply f)))
      else (s, b.done (.error .deliveryTransition))
    | .ok _, _ => (s, b.done (.error .ledgerFile))
  | .stage id t f => match s.find? id with
    | some d =>
      if d.stages b.pid = none then
        (s.set id { d with stages := Function.update d.stages b.pid (some .torn) },
          b.go (.fillStage id t f))
      else (s, b.done (.error .ledgerWrite))
    | none => (s, b.done (.error .ledgerWrite))
  | .fillStage id t f => match s.find? id with
    | some d =>
      (s.set id { d with stages := Function.update d.stages b.pid (some (.whole f)) },
        b.go (.rename id t))
    | none => (s, b.done (.error .ledgerWrite))
  | .rename id t => match s.find? id with
    | some d =>
      (s.set id { d with
          status := d.stages b.pid, stages := Function.update d.stages b.pid none },
        b.go (.renamed id t))
    | none => (s, b.done (.error .ledgerWrite))
  | .renamed id _ => (s, b.done (s.load size id))

/-- Where a call begins. -/
def begin (pid : Nat) (call : LedgerCall) : LedgerAt :=
  ⟨pid, call, match call with
    | .prepare r => .look r
    | .transition id t => match t.checkedTurn with
      | some turn => .check id t turn
      | none => .enter id t⟩

end LedgerAt

/-- A call by a process whose arguments are accepted. -/
structure LedgerStart where
  pid : Nat
  call : LedgerCall
  accepted : ∀ id t, call = .transition id t → t.accepts

def ledger (size : Attachment → Nat) : Sections LedgerDir LedgerStart LedgerAt LedgerResult where
  start call := .begin call.pid call.call
  step := LedgerAt.step size

end Orchestrator.Bridge
