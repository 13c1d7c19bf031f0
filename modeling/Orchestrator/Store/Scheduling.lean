import Orchestrator.Store.Admission

/-!
# Claiming a ready task

`ClaimReady` turns a ready task into a launch grant: it picks the task, bounds
the grant by what is left of the group's budget, and creates the segment.
`PendingLaunches` repeats grants a Host may not have seen.
-/
namespace Orchestrator.Store
open Library

/-! ## Resources -/

/-- Provider and workspace of an adapter payload. -/
def Platform.resourceKeys (p : Platform) (payload : String) : String × String :=
  match p.unmarshalPayload payload with
  | none => ("", "")
  | some keys =>
    (if keys.provider = "" then keys.kind else keys.provider, p.workspaceKey keys.directory)

/-- A configured limit, or the global one when none is positive. -/
def limitOf (configured : List (String × Nat)) (global : Nat) (key : String) : Nat :=
  let limit := (configured.lookup key).getD 0
  if limit = 0 then global else limit

def ConcurrencyLimits.provider (l : ConcurrencyLimits) : String → Nat :=
  limitOf l.providers l.global
def ConcurrencyLimits.workspace (l : ConcurrencyLimits) : String → Nat :=
  limitOf l.workspaces l.global

/-- Active segments whose task's payload has key `k` under `key`. -/
def Core.occupied (c : Core) (key : String → String) (k : String) : Nat :=
  c.segments.count (fun g => g.active &&
    (c.tasks.find? g.taskId).any (fun t => key t.adapterPayload = k))

def Platform.provider (p : Platform) (payload : String) : String := (p.resourceKeys payload).1
def Platform.workspace (p : Platform) (payload : String) : String := (p.resourceKeys payload).2

/-- The task's provider and workspace both have a free slot. -/
def Core.hasCapacity (c : Core) (p : Platform) (t : Task) : Bool :=
  c.occupied p.provider (p.provider t.adapterPayload) <
      c.limits.provider (p.provider t.adapterPayload) &&
    c.occupied p.workspace (p.workspace t.adapterPayload) <
      c.limits.workspace (p.workspace t.adapterPayload)

def TaskStatus.claimable : TaskStatus → Bool
  | .ready | .resumeQueued => true
  | _ => false

/-- How SQLite orders a nullable column. -/
def nullsFirst : Option Int → Option Int → Prop
  | none, _ => True
  | some _, none => False
  | some m, some n => m ≤ n

instance : DecidableRel nullsFirst
  | none, _ => isTrue trivial
  | some _, none => isFalse id
  | some m, some n => inferInstanceAs (Decidable (m ≤ n))

/-- `ORDER BY ready_sequence`. -/
def byReadySequence (t u : Task) : Prop := nullsFirst t.readySequence u.readySequence

instance : DecidableRel byReadySequence := fun _ _ => inferInstanceAs (Decidable (nullsFirst _ _))

def Core.candidates (c : Core) (launchId : String) : List Task :=
  (c.tasks.rows.filter (fun t => t.hostLaunchId = launchId && t.status.claimable)).insertionSort
    byReadySequence

def selectReady (p : Platform) (c : Core) (launchId : String) : Option Task :=
  (c.candidates launchId).find? (c.hasCapacity p)

/-! ## ClaimReady -/

/-- The attempt and segment numbers of the next launch of a task. -/
structure Placement where
  attemptId : String
  attemptNo : Nat
  segmentNo : Nat
  deriving DecidableEq, Repr

def Core.attemptSegments (c : Core) (attemptId : String) : Nat :=
  c.segments.count (fun g => g.attemptId = attemptId)

def Core.placeResume (c : Core) (t : Task) : Except CodeError Placement := do
  let attempt ← expect (c.latestAttempt t.id) .sql
  require (c.segments.count (fun g => g.attemptId = attempt.id && g.active) = 0) .conflict
  .ok ⟨attempt.id, attempt.attemptNo, c.attemptSegments attempt.id + 1⟩

/-- No attempt is left to a task of the group. -/
def Core.attemptsExhausted (c : Core) (group : String) (maxAttempts : Int) : Prop :=
  maxAttempts ≤ c.groupAttempts group ∨ 3 ≤ c.groupAttempts group

instance (c : Core) (group : String) (maxAttempts : Int) :
    Decidable (c.attemptsExhausted group maxAttempts) := inferInstanceAs (Decidable (_ ∨ _))

def Core.placeAttempt (c : Core) (env : Env) (t : Task) : Except CodeError Placement := do
  require (¬ c.attemptsExhausted t.budgetGroupId t.maxAttempts) .attemptLimit
  .ok ⟨env.newId "attempt", c.groupAttempts t.budgetGroupId + 1, 1⟩

def Core.place (c : Core) (env : Env) (t : Task) : Except CodeError Placement :=
  if t.status = .resumeQueued then c.placeResume t else c.placeAttempt env t

/-- The grant: the task's bound, cut to what is left of the group's budget. -/
def Core.grant (c : Core) (t : Task) : Int :=
  min t.maxActiveMs (defaultGroupActiveMs - c.charged t.budgetGroupId)

def DB.claimedSegment (d : DB) (env : Env) (hostId : String) (epoch : Nat) (t : Task)
    (place : Placement) (grant : Int) : Segment where
  id := env.newId "segment"
  attemptId := place.attemptId
  taskId := t.id
  attemptNo := place.attemptNo
  segmentNo := place.segmentNo
  phase := .launchRequested
  hostId := hostId
  commandId := env.newId "command"
  executionEpoch := epoch
  slotToken := env.newId "slot"
  launchIntentHash := d.runtimeHash (t.runId ++ "\x00" ++ t.id ++ "\x00" ++ place.attemptId ++
    "\x00" ++ env.newId "segment" ++ "\x00" ++ env.newId "slot")
  reservation := {
    id := env.newId "reservation"
    budgetGroupId := t.budgetGroupId
    grantedMs := grant
    usedMs := 0
    status := .reserved }
  status := .launchRequested
  outcome := .none
  deadlineUnixMs := env.now.unixMs + grant
  createdAt := env.now.stamp

/-- The attempt of the launch: a new row, or the resumed one set running. -/
def Core.startAttempt (c : Core) (t : Task) (place : Placement) : Except CodeError Core := do
  if t.status = .resumeQueued then .ok (c.setAttemptStatus place.attemptId .running)
  else
    require (∀ a ∈ c.attempts.rows, ¬ (a.taskId = t.id ∧ a.attemptNo = place.attemptNo)) .sql
    let attempts ← expect
      (c.attempts.insert? ⟨place.attemptId, t.id, place.attemptNo, .running⟩) .sql
    .ok { c with attempts := attempts }

/-- The `UNIQUE` columns of `segments`, `segment_runtime` and `budget_runtime`. -/
def Core.segmentUnused (c : Core) (g : Segment) : Prop :=
  (∀ h ∈ c.segments.rows, ¬ (h.attemptId = g.attemptId ∧ h.segmentNo = g.segmentNo)) ∧
    c.segments.Unused Segment.commandId g.commandId ∧
    c.segments.Unused Segment.slotToken g.slotToken ∧
    c.segments.Unused (fun h => h.reservation.id) g.reservation.id

instance (c : Core) (g : Segment) : Decidable (c.segmentUnused g) :=
  inferInstanceAs (Decidable (_ ∧ _))

def Core.startSegment (c : Core) (g : Segment) : Except CodeError Core := do
  require (c.segmentUnused g) .sql
  let segments ← expect (c.segments.insert? g) .sql
  .ok { c with segments := segments }

/-- `ORDER BY question_revision DESC LIMIT 1`. -/
def State.latestQuestion (s : State) (taskId attemptId : String) (status : QuestionStatus) :
    Option Question :=
  letI : Preorder Int := Int.instLinearOrder.toPreorder
  (s.questions.rows.filter
    (fun q => q.taskId = taskId && q.attemptId = attemptId && q.status = status)).argmax
    Question.questionRevision

def launchCommand (t : Task) (g : Segment) (capabilityId : String) (q : Option Question) :
    LaunchCommand where
  commandId := g.commandId
  hostId := g.hostId
  runId := t.runId
  taskId := t.id
  attemptId := g.attemptId
  segmentId := g.id
  workRevision := t.workRevision
  executionEpoch := g.executionEpoch
  slotToken := g.slotToken
  launchIntentHash := g.launchIntentHash
  reservationId := g.reservation.id
  budgetGroupId := t.budgetGroupId
  grantedActiveMs := g.reservation.grantedMs
  deadlineUnixMs := g.deadlineUnixMs
  adapterPayload := t.adapterPayload
  questionId := (q.map Question.questionId).getD ""
  questionRevision := (q.map Question.questionRevision).getD 0
  answer := (q.map Question.answerText).getD ""
  sessionKind := (q.map Question.sessionKind).getD ""
  sessionId := (q.map Question.sessionId).getD ""
  reportCapabilityId := capabilityId

def claimedCapability (env : Env) (hostId : String) (epoch : Nat) (t : Task) (g : Segment) :
    ReportCapability where
  capabilityId := env.newId "report-capability"
  segmentId := g.id
  producerId := hostId
  tokenHash := ""
  capabilityDir := ""
  runId := t.runId
  taskId := t.id
  attemptId := g.attemptId
  workRevision := t.workRevision
  executionEpoch := epoch
  status := .pending
  usedBytes := 0

/-- The answered question a resumed launch carries. -/
def State.resumedQuestion (s : State) (t : Task) (place : Placement) : Option Question :=
  if t.status = .resumeQueued then s.latestQuestion t.id place.attemptId .resumeQueued else none

def startResume (questions : Table Question.questionId) (question : Option Question) :
    Table Question.questionId :=
  questions.update
    (fun q => question.map Question.questionId = some q.questionId && q.status = .resumeQueued)
    (fun q => { q with status := .resumeStarted })

/-- The rows a claim writes once task, placement and grant are settled. -/
def DB.launch (d : DB) (env : Env) (s : State) (hostId : String) (epoch : Nat) (t : Task)
    (place : Placement) (grant : Int) : Except CodeError (State × LaunchCommand) := do
  let segment := d.claimedSegment env hostId epoch t place grant
  let capability := claimedCapability env hostId epoch t segment
  let core ← s.toCore.startAttempt t place
  let core ← core.startSegment segment
  require (s.reportCapabilities.Unused ReportCapability.segmentId segment.id) .sql
  let capabilities ← expect (s.reportCapabilities.insert? capability) .sql
  let question := s.resumedQuestion t place
  .ok ({ s with
    toCore := core.setTaskStatus t.id .running
    reportCapabilities := capabilities
    questions := startResume s.questions question },
    launchCommand t segment capability.capabilityId question)

/-- `slots` as far as it narrows the global limit. -/
def slotBound (limits : ConcurrencyLimits) (slots : Int) : Int :=
  if slots < 1 ∨ slots > limits.global then limits.global else slots

def DB.claimReady (d : DB) (env : Env) (s : State) (hostId : String) (epoch : Nat) (slots : Int) :
    Except CodeError (State × LaunchCommand) := do
  let host ← expect (s.hosts.find? hostId) .hostRejected
  require (host.status = .ready ∧ host.coordinatorEpoch = epoch) .hostRejected
  require ((s.activeCount : Int) < slotBound s.limits slots) .noExecutionSlot
  let t ← expect (selectReady d.toPlatform s.toCore host.launchId) .noReadyTask
  d.storageAdmission s env.disk t.runId 0 false
  let place ← s.toCore.place env t
  let grant := s.toCore.grant t
  require (0 < grant) .budgetExhausted
  d.launch env s hostId epoch t place grant

/-! ## PendingLaunches -/

/-- `ORDER BY created_at, segment_id`. -/
def byCreation (g h : Segment) : Prop :=
  g.createdAt < h.createdAt ∨ g.createdAt = h.createdAt ∧ g.id ≤ h.id

instance : DecidableRel byCreation := fun _ _ => inferInstanceAs (Decidable (_ ∨ _))

def State.pendingCommand (s : State) (g : Segment) : Except CodeError LaunchCommand := do
  let t ← expect (s.tasks.find? g.taskId) .sql
  let capability ← expect (s.reportCapabilities.rows.find? (fun c => c.segmentId = g.id)) .sql
  .ok (launchCommand t g capability.capabilityId
    (s.latestQuestion t.id g.attemptId .resumeStarted))

def pendingLaunches (s : State) (hostId : String) (epoch : Nat) :
    Except CodeError (State × List LaunchCommand) := do
  let host ← expect (s.hosts.find? hostId) .hostRejected
  require (host.status = .ready ∧ host.coordinatorEpoch = epoch) .hostRejected
  let core := s.toCore.updateSegments
    (fun g => g.hostId = hostId && g.status = .launchRequested)
    (fun g => { g with executionEpoch := epoch })
  let s : State := { s with toCore := core }
  let pending := (core.segments.rows.filter
    (fun g => g.hostId = hostId && g.status = .launchRequested)).insertionSort byCreation
  let commands ← pending.mapM s.pendingCommand
  .ok (s, commands)

end Orchestrator.Store
