import Orchestrator.Store.Reports

/-!
# Decisions of the owner

Resuming an interrupted task, answering its question, reviewing its result and
retrying it after a failure.
-/
namespace Orchestrator.Store
open Library

/-! ## QueueResume -/

def queueResume (s : State) (taskId : String) (workRevision : Int) :
    Except CodeError (State × Unit) := do
  let t ← expect (s.tasks.find? taskId) .notFound
  require (t.workRevision = workRevision ∧ t.status = .interrupted) .conflict
  require (s.taskActive taskId = 0) .conflict
  .ok ({ s with toCore := s.toCore.enqueue taskId .resumeQueued }, ())

/-! ## AnswerQuestion -/

structure AnswerSpec where
  taskId : String
  workRevision : Int
  questionId : String
  questionRevision : Int
  answer : String
  deriving DecidableEq, Repr

def DB.queueAnswer (d : DB) (s : State) (spec : AnswerSpec) (t : Task) (q : Question) :
    Except CodeError (State × QuestionStatus) := do
  require (t.status = .waitingQuestion) .conflict
  require (s.taskActive spec.taskId = 0) .conflict
  require ((s.latestSegment spec.taskId).map Segment.id = some q.segmentId) .conflict
  .ok ({ s with
    toCore := s.toCore.enqueue spec.taskId .resumeQueued
    questions := s.questions.update
      (fun q => q.questionId = spec.questionId && q.status = .open)
      (fun q => { q with
        status := .resumeQueued
        answerHash := d.runtimeHash spec.answer
        answerText := spec.answer }) (Table.keeps Question.questionId) }, .resumeQueued)

def DB.answerQuestion (d : DB) (s : State) (spec : AnswerSpec) :
    Except CodeError (State × QuestionStatus) := do
  require (spec.taskId ≠ "" ∧ 1 ≤ spec.workRevision ∧ spec.questionId ≠ "" ∧
    1 ≤ spec.questionRevision ∧ d.trimSpace spec.answer ≠ "" ∧
    spec.answer.utf8ByteSize ≤ 32 * 1024) .invalidAnswer
  let q ← expect (s.questions.find? spec.questionId) .notFound
  require (q.taskId = spec.taskId) .notFound
  let t ← expect (s.tasks.find? spec.taskId) .notFound
  require (t.workRevision = spec.workRevision ∧ q.questionRevision = spec.questionRevision)
    .conflict
  if q.status ≠ .open then do
    require (q.answerHash = d.runtimeHash spec.answer) .conflict
    .ok (s, q.status)
  else d.queueAnswer s spec t q

/-! ## ReviewResult -/

structure ReviewSpec where
  taskId : String
  workRevision : Int
  eventId : String
  eventRevision : Int
  eventHash : String
  actionSlot : String
  decision : String
  commandId : String
  deriving DecidableEq, Repr

/-- The stored result under review. -/
def DB.reviewedEvent (d : DB) (s : State) (spec : ReviewSpec) : Except CodeError Event := do
  let t ← expect (s.tasks.find? spec.taskId) .conflict
  let r ← expect (s.runtimeEvents.find? spec.eventId) .conflict
  require (r.taskId = spec.taskId ∧ t.status = .resultReady ∧ t.workRevision = spec.workRevision ∧
    r.eventRevision = spec.eventRevision ∧ r.actionSlot = spec.actionSlot ∧
    r.payloadHash = d.toLower spec.eventHash) .conflict
  require (r.body.kind = .result) .conflict
  require ((s.latestSegment spec.taskId).map Segment.id = some r.body.segmentId) .conflict
  .ok r.body

def Core.accept (c : Core) (taskId : String) : Core :=
  releaseReady (c.setTaskStatus taskId .completed)

def Core.reject (c : Core) (taskId attemptId : String) : Except CodeError Core :=
  ((c.setTaskStatus taskId .failed).setAttemptStatus attemptId .failed).blockIfExhausted taskId

def DB.applyReview (d : DB) (s : State) (spec : ReviewSpec) :
    Except CodeError (State × String) := do
  let e ← d.reviewedEvent s spec
  require (s.reviewDecisions.Unused ReviewDecision.eventId spec.eventId ∧
    s.reviewDecisions.Unused ReviewDecision.commandId spec.commandId) .conflict
  let reviews ← expect (s.reviewDecisions.insert? {
    actionSlot := spec.actionSlot
    taskId := spec.taskId
    eventId := spec.eventId
    eventRevision := spec.eventRevision
    eventHash := d.toLower spec.eventHash
    decision := spec.decision
    commandId := spec.commandId }) .conflict
  if spec.decision = "accept" then
    .ok ({ s with toCore := s.toCore.accept spec.taskId, reviewDecisions := reviews }, "accepted")
  else do
    let core ← s.toCore.reject spec.taskId e.attemptId
    .ok ({ s with toCore := core, reviewDecisions := reviews }, "rejected")

def DB.reviewResult (d : DB) (s : State) (spec : ReviewSpec) :
    Except CodeError (State × String) := do
  require (spec.taskId ≠ "" ∧ 1 ≤ spec.workRevision ∧ spec.eventId ≠ "" ∧ 1 ≤ spec.eventRevision ∧
    spec.eventHash ≠ "" ∧ spec.actionSlot ≠ "" ∧ spec.commandId ≠ "" ∧
    (spec.decision = "accept" ∨ spec.decision = "reject")) .invalidReview
  match s.reviewDecisions.find? spec.actionSlot with
  | some previous => do
    require (previous.decision = spec.decision ∧ previous.eventHash = d.toLower spec.eventHash ∧
      previous.eventRevision = spec.eventRevision) .conflict
    .ok (s, previous.decision ++ "ed")
  | none => d.applyReview s spec

/-! ## QueueRetry -/

structure RetrySpec where
  taskId : String
  workRevision : Int
  eventId : String
  eventRevision : Int
  eventHash : String
  actionSlot : String
  segmentId : String
  nextAttemptNo : Int
  useNextFallback : Bool
  commandId : String
  deriving DecidableEq, Repr

structure RetryReceipt where
  status : String
  taskId : String
  workRevision : Int
  eventId : String
  actionSlot : String
  segmentId : String
  nextAttemptNo : Int
  useNextFallback : Bool
  deriving DecidableEq, Repr

def retryReceipt (r : RetryDecision) : RetryReceipt where
  status := "retry_queued"
  taskId := r.taskId
  workRevision := r.workRevision
  eventId := r.sourceEventId
  actionSlot := r.actionSlot
  segmentId := r.sourceSegmentId
  nextAttemptNo := r.nextAttemptNo
  useNextFallback := r.useNextFallback

def DB.retryDecision (d : DB) (spec : RetrySpec) : RetryDecision where
  actionSlot := spec.actionSlot
  taskId := spec.taskId
  workRevision := spec.workRevision
  sourceEventId := spec.eventId
  sourceEventRevision := spec.eventRevision
  sourceEventHash := d.toLower spec.eventHash
  sourceSegmentId := spec.segmentId
  nextAttemptNo := spec.nextAttemptNo
  useNextFallback := spec.useNextFallback
  commandId := spec.commandId

/-- An event of either log, with the task and the segment it is about. -/
structure SourceEvent where
  taskId : String
  segmentId : String
  payloadHash : String
  eventRevision : Int
  actionSlot : String
  deliveryStatus : DeliveryStatus
  fromReport : Bool
  body : Event
  deriving DecidableEq, Repr

def State.runtimeSource (s : State) (eventId : String) : Option SourceEvent :=
  (s.runtimeEvents.find? eventId).map fun r =>
    ⟨r.taskId, r.segmentId, r.payloadHash, r.eventRevision, r.actionSlot, r.deliveryStatus, false,
      r.body⟩

def State.reportSource (s : State) (eventId : String) : Option SourceEvent :=
  (s.reportEvents.find? eventId).bind fun r =>
    (s.reportCapabilities.find? r.capabilityId).map fun c =>
      ⟨c.taskId, c.segmentId, r.payloadHash, r.eventRevision, r.actionSlot, r.deliveryStatus, true,
        r.body⟩

def State.source (s : State) (eventId : String) : Option SourceEvent :=
  match s.runtimeSource eventId with
  | some source => some source
  | none => s.reportSource eventId

/-- The failure being retried: the event, and the failed latest attempt it belongs to. -/
def DB.retrySource (d : DB) (s : State) (spec : RetrySpec) : Except CodeError Unit := do
  let source ← expect (s.source spec.eventId) .conflict
  require (source.taskId = spec.taskId ∧ source.segmentId = spec.segmentId ∧
    source.payloadHash = d.toLower spec.eventHash ∧ source.eventRevision = spec.eventRevision ∧
    source.actionSlot = spec.actionSlot) .conflict
  require (source.body.kind = .failed ∨ source.body.kind = .result) .conflict
  require (source.body.kind = .result → ∃ r ∈ s.reviewDecisions.rows,
    r.eventId = spec.eventId ∧ r.actionSlot = spec.actionSlot ∧ r.decision = "reject") .conflict
  let g ← expect (s.segments.find? spec.segmentId) .conflict
  let a ← expect (s.attempts.find? g.attemptId) .conflict
  require (a.taskId = spec.taskId ∧ a.status = .failed ∧
    (s.latestAttempt spec.taskId).map Attempt.attemptNo = some a.attemptNo) .conflict

/-- The payload of the retry: the next fallback, or none for the present one. -/
def nextFallback (t : Task) (useNextFallback : Bool) : Except CodeError (Option String) := do
  if useNextFallback then
    let fallback ← expect (t.fallbackPayloads[t.fallbackIndex]?) .fallbackUnavailable
    .ok (if fallback = "" then none else some fallback)
  else .ok none

def Core.setAdapter (c : Core) (taskId : String) (payload : Option String) : Core :=
  match payload with
  | none => c
  | some payload => c.setTask taskId (fun t =>
      { t with adapterPayload := payload, fallbackIndex := t.fallbackIndex + 1 })
      (Table.keeps Task.id)

def DB.applyRetry (d : DB) (s : State) (spec : RetrySpec) :
    Except CodeError (State × RetryReceipt) := do
  require (s.retryDecisions.Unused RetryDecision.sourceEventId spec.eventId ∧
    s.retryDecisions.Unused RetryDecision.commandId spec.commandId) .conflict
  let t ← expect (s.tasks.find? spec.taskId) .notFound
  require (t.status = .failed ∧ t.workRevision = spec.workRevision) .conflict
  require (s.taskActive spec.taskId = 0) .conflict
  require (¬ s.attemptsExhausted t.budgetGroupId t.maxAttempts) .attemptLimit
  require (spec.nextAttemptNo = s.groupAttempts t.budgetGroupId + 1) .conflict
  d.retrySource s spec
  let payload ← nextFallback t spec.useNextFallback
  let retries ← expect (s.retryDecisions.insert? (d.retryDecision spec)) .conflict
  .ok ({ s with
    toCore := (s.toCore.setAdapter spec.taskId payload).enqueue spec.taskId .ready
    retryDecisions := retries }, retryReceipt (d.retryDecision spec))

def DB.queueRetry (d : DB) (s : State) (spec : RetrySpec) :
    Except CodeError (State × RetryReceipt) := do
  require (spec.taskId ≠ "" ∧ 1 ≤ spec.workRevision ∧ spec.eventId ≠ "" ∧ 1 ≤ spec.eventRevision ∧
    validDigest spec.eventHash = true ∧ spec.actionSlot ≠ "" ∧ spec.segmentId ≠ "" ∧
    2 ≤ spec.nextAttemptNo ∧ spec.commandId ≠ "" ∧ spec.commandId.utf8ByteSize ≤ 128) .invalidRetry
  match s.retryDecisions.find? spec.actionSlot with
  | some existing => do
    require ({ existing with commandId := spec.commandId } = d.retryDecision spec) .conflict
    .ok (s, retryReceipt existing)
  | none => d.applyRetry s spec

end Orchestrator.Store
