import Orchestrator.Store.Scheduling

/-!
# Committing Host events

`CommitHostEvent` appends one event to its producer's gap-free log and applies
it. Each kind has its own guard on the segment: an event that comes too late is
logged and changes nothing else, or is refused.
-/
namespace Orchestrator.Store
open Library

/-! ## Applying an event -/

def State.segment? (s : State) (id : String) : Option Segment := s.segments.find? id

def Core.updateSegment (c : Core) (id : String) (p : Segment → Bool) (f : Segment → Segment)
    (h : ∀ g, (f g).id = g.id := by intro _; simp) : Core :=
  c.updateSegments (fun g => g.id = id && p g) f h

theorem Core.mem_updateSegment {c : Core} {id : String} {p : Segment → Bool}
    {f : Segment → Segment} {h : ∀ g, (f g).id = g.id} {g' : Segment} :
    g' ∈ (c.updateSegment id p f h).segments ↔
      ∃ g ∈ c.segments, Table.patch (fun g => g.id = id && p g) f g = g' :=
  Table.mem_update (h := h)

/-- `prepared`, `spawned` and `running`: the phase follows the status. -/
def Core.applyPhase (c : Core) (segmentId : String) (next : SegmentStatus)
    (allowed : List SegmentStatus) : Core :=
  c.updateSegment segmentId (fun g => g.status ∈ allowed && g.status ≠ .exited)
    (fun g => { g with status := next, phase := next }) (Table.keeps Segment.id)

/-- `UNIQUE(task_id, question_revision)`. -/
def State.revisionUnused (s : State) (taskId : String) (revision : Int) : Prop :=
  ∀ q ∈ s.questions.rows, ¬ (q.taskId = taskId ∧ q.questionRevision = revision)

instance (s : State) (taskId : String) (revision : Int) :
    Decidable (s.revisionUnused taskId revision) :=
  inferInstanceAs (Decidable (∀ q ∈ s.questions.rows, _))

def openQuestion (e : Event) : Question where
  questionId := e.questionId
  taskId := e.taskId
  attemptId := e.attemptId
  segmentId := e.segmentId
  questionRevision := e.questionRevision
  workRevision := e.workRevision
  sessionKind := e.sessionKind
  sessionId := e.sessionId
  status := .open
  answerHash := ""
  answerText := ""

def applyQuestion (s : State) (e : Event) : Except CodeError State := do
  require (e.questionId ≠ "" ∧ 1 ≤ e.questionRevision ∧ e.sessionKind ≠ "" ∧ e.sessionId ≠ "")
    .invalidQuestion
  let g ← expect (s.segment? e.segmentId) .sql
  if g.status = .exited then .ok s
  else
    require (s.revisionUnused e.taskId e.questionRevision) .conflict
    let questions ← expect (s.questions.insert? (openQuestion e)) .conflict
    require (g.outcome = .none) .conflict
    .ok { s with
      toCore := s.toCore.updateSegment e.segmentId
        (fun g => g.status ≠ .exited && g.outcome = .none)
        (fun g => { g with outcome := .question }) (Table.keeps Segment.id)
      questions := questions }

def waitingQuestion : String := "waiting_question"

def SegmentStatus.launched : SegmentStatus → Bool
  | .prepared | .spawned | .running => true
  | _ => false

/-- `now.Add(10 * time.Second)`. -/
def Clock.stopDeadline (now : Clock) : Int := now.unixMs + 10 * 1000

/-- The insert shared by `ensureQuestionStop` and `RequestStop`. -/
def State.insertStop (s : State) (env : Env) (g : Segment) (reason : String) :
    Option (Table StopRow.segmentId) :=
  if s.stops.Unused StopRow.commandId (env.newId "stop") then
    s.stops.insert? {
      commandId := env.newId "stop"
      hostId := g.hostId
      segmentId := g.id
      reason := reason
      deadlineUnixMs := env.now.stopDeadline
      status := .pending
      createdAt := env.now.stamp }
  else none

def ensureQuestionStop (env : Env) (s : State) (e : Event) : Except CodeError State :=
  match s.stops.find? e.segmentId with
  | some stop => do
    require (stop.reason = waitingQuestion) .conflict
    .ok s
  | none => do
    let g ← expect (s.segment? e.segmentId) .conflict
    require (g.status.launched = true) .conflict
    let stops ← expect (s.insertStop env g waitingQuestion) .sql
    .ok { s with
      toCore := (s.toCore.updateSegment e.segmentId (fun g => g.status.launched)
        (fun g => { g with status := .stopping }) (Table.keeps Segment.id)).setTaskStatus
          e.taskId .stopping
      stops := stops }

/-- The oldest question a report left waiting for the segment's session. -/
def State.pendingReportQuestion (s : State) (segmentId : String) : Option ReportEvent :=
  letI : Preorder Int := Int.instLinearOrder.toPreorder
  (s.reportEvents.rows.filter (fun r =>
    r.kind = .question && r.deliveryStatus = .pendingSession &&
      (s.reportCapabilities.find? r.capabilityId).any (fun c => c.segmentId = segmentId))).argmin
    ReportEvent.sequence

def State.appendDelivery (s : State) (eventId taskId : String) :
    Option (Table DeliveryOrder.eventId) :=
  s.deliveryOrder.insert? ⟨s.deliveryOrder.rows.length + 1, eventId, taskId⟩

/-- The stored event only reaches `applyEvent` when it is a question. -/
def materializePendingReportQuestion (env : Env) (s : State)
    (segmentId sessionKind sessionId : String) : Except CodeError State :=
  match s.pendingReportQuestion segmentId with
  | none => .ok s
  | some r => do
    let capability ← expect (s.reportCapabilities.find? r.capabilityId) .sql
    require (r.body.kind = .question ∧ r.body.segmentId = segmentId) .conflict
    let e := { r.body with sessionKind := sessionKind, sessionId := sessionId }
    let deliveryOrder ← expect (s.appendDelivery r.eventId capability.taskId) .conflict
    let s := { s with
      reportEvents := s.reportEvents.update
        (fun q => q.eventId = r.eventId && q.deliveryStatus = .pendingSession)
        (fun q => { q with body := e, deliveryStatus := .pending })
      deliveryOrder := deliveryOrder }
    let s ← applyQuestion s e
    ensureQuestionStop env s e

def applySession (env : Env) (s : State) (e : Event) : Except CodeError State := do
  require (e.sessionKind ≠ "" ∧ e.sessionKind.utf8ByteSize ≤ 64 ∧ e.sessionId ≠ "" ∧
    e.sessionId.utf8ByteSize ≤ 512) .invalidSession
  let g ← expect (s.segment? e.segmentId) .sql
  if g.status = .exited then .ok s
  else
    match s.sessions.find? e.segmentId with
    | some session => do
      require (session.sessionKind = e.sessionKind ∧ session.sessionId = e.sessionId) .conflict
      materializePendingReportQuestion env s e.segmentId e.sessionKind e.sessionId
    | none => do
      require (s.sessions.Unused SegmentSession.eventId e.eventId) .conflict
      let sessions ← expect (s.sessions.insert?
        ⟨e.segmentId, e.attemptId, e.sessionKind, e.sessionId, e.eventId⟩) .conflict
      materializePendingReportQuestion env { s with sessions := sessions } e.segmentId
        e.sessionKind e.sessionId

def Core.setOutcome (c : Core) (segmentId : String) (outcome : Outcome) : Core :=
  c.updateSegment segmentId
    (fun g => g.status ≠ .exited && (g.outcome = .none || g.outcome = outcome))
    (fun g => { g with outcome := outcome }) (Table.keeps Segment.id)

/-- `UPDATE stop_runtime SET status=? WHERE segment_id=?`. -/
def setStopRows (stops : Table StopRow.segmentId) (segmentId : String) (status : StopStatus) :
    Table StopRow.segmentId :=
  stops.update (fun r => r.segmentId = segmentId) (fun r => { r with status := status })

def State.setStopStatus (s : State) (segmentId : String) (status : StopStatus) : State :=
  { s with stops := setStopRows s.stops segmentId status }

def Core.applyUnknown (c : Core) (e : Event) : Core :=
  if (c.segments.find? e.segmentId).any (fun g => g.status ≠ .exited) then
    ((c.updateSegment e.segmentId (fun g => g.status ≠ .exited)
      (fun g => { g with status := .unknown, phase := .unknown })
      (Table.keeps Segment.id)).setAttemptStatus
        e.attemptId .unknown).setTaskStatus e.taskId .unknown
  else c

/-! ## Exits -/

/-- What an exit settles: the reported active time, at most the grant; a
negative report counts as the whole grant. -/
def settledMs (activeMs grant : Int) : Int :=
  let used := if activeMs < 0 then grant else activeMs
  if used > grant then grant else used

/-- What becomes of attempt and task when the segment exits. -/
def exitStatus (d : DB) (t : Task) (outcome : Outcome) (e : Event) : AttemptStatus × TaskStatus :=
  match outcome with
  | .result =>
    if t.completionPolicy = .exitSuccessFixture ∨ (t.completionPolicy = .artifact ∧
        e.artifact.any (fun a => d.toLower a.sha256 = t.expectedArtifactSha256)) then
      (.resultReady, .completed)
    else (.resultReady, .resultReady)
  | .question => (.interrupted, .waitingQuestion)
  | .failed => (.failed, .failed)
  | .stopped | .none => (.interrupted, .interrupted)

def Core.settle (c : Core) (segmentId : String) (used : Int) : Core :=
  c.updateSegment segmentId (fun _ => true) (fun g =>
    { g with
      status := .exited
      phase := .exited
      reservation := { g.reservation with usedMs := used, status := .settled } })
    (Table.keeps Segment.id)

/-- Every attempt of the task's own is used. -/
def Core.spent (c : Core) (t : Task) : Prop :=
  t.maxAttempts ≤ c.taskAttempts t.id ∨ 3 ≤ c.taskAttempts t.id

instance (c : Core) (t : Task) : Decidable (c.spent t) := inferInstanceAs (Decidable (_ ∨ _))

/-- A task that failed with its last attempt blocks its dependents. -/
def Core.blockIfExhausted (c : Core) (taskId : String) : Except CodeError Core := do
  let t ← expect (c.tasks.find? taskId) .sql
  require (0 < c.taskAttempts taskId) .sql
  .ok (if c.spent t then blockFailedDependencies c else c)

/-- What follows the new status of a task: releases, or blocks, its dependents. -/
def Core.afterExit (c : Core) (taskId : String) (status : TaskStatus) : Except CodeError Core :=
  match status with
  | .completed => .ok (releaseReady c)
  | .failed => c.blockIfExhausted taskId
  | _ => .ok c

def DB.applyExit (d : DB) (s : State) (e : Event) : Except CodeError State := do
  let g ← expect (s.segment? e.segmentId) .sql
  if g.status = .exited then .ok s
  else
    let core := s.toCore.settle e.segmentId (settledMs e.activeMs g.reservation.grantedMs)
    let t ← expect (s.tasks.find? e.taskId) .sql
    let status := exitStatus d t g.outcome e
    let core := (core.setAttemptStatus e.attemptId status.1).setTaskStatus e.taskId status.2
    let core ← core.afterExit e.taskId status.2
    .ok { s with
      toCore := core
      stops := setStopRows s.stops e.segmentId .completed
      questions := s.questions.update
        (fun q => q.taskId = e.taskId && q.attemptId = e.attemptId && q.status = .resumeStarted)
        (fun q => { q with status := .resolved }) (Table.keeps Question.questionId) }

def DB.applyEvent (d : DB) (env : Env) (s : State) (e : Event) : Except CodeError State :=
  match e.kind with
  | .prepared =>
    .ok { s with
      toCore := s.toCore.applyPhase e.segmentId .prepared [.launchRequested, .prepared] }
  | .spawned =>
    .ok { s with toCore := s.toCore.applyPhase e.segmentId .spawned [.prepared, .spawned] }
  | .running =>
    .ok { s with toCore := s.toCore.applyPhase e.segmentId .running [.spawned, .running] }
  | .session => applySession env s e
  | .question => applyQuestion s e
  | .result => .ok { s with toCore := s.toCore.setOutcome e.segmentId .result }
  | .failed => .ok { s with toCore := s.toCore.setOutcome e.segmentId .failed }
  | .stopped =>
    -- the second statement has no guard on the segment status
    .ok ({ s with toCore := s.toCore.setOutcome e.segmentId .stopped }.setStopStatus e.segmentId
      .accepted)
  | .unknown => .ok { s with toCore := s.toCore.applyUnknown e }
  | .exited => d.applyExit s e
  | .other _ => .error .invalidEventKind

/-! ## CommitHostEvent -/

/-- `canonicalHostEvent`: what two copies of an event are compared by. -/
def canonicalHostEvent (e : Event) : Event :=
  { e with executionEpoch := 0, eventRevision := 0, actionSlot := "" }

def deliveryStatusOf : EventKind → DeliveryStatus
  | .prepared | .spawned | .running | .session | .exited => .internal
  | _ => .pending

/-- `"action-" + runtimeHash(source + "\x00" + id)[:32]`. -/
def Platform.actionSlot (p : Platform) (source eventId : String) : String :=
  "action-" ++ String.ofList ((p.runtimeHash (source ++ "\x00" ++ eventId)).toList.take 32)

def State.lastSequence (s : State) (producerId : String) : Int :=
  ((s.runtimeEvents.rows.filter (fun r => r.producerId = producerId)).map
    RuntimeEvent.sequence).foldr max 0

def hostAck (e : Event) : DurableAck where
  producerId := e.producerId
  ackedThrough := e.sequence
  eventId := e.eventId
  payloadHash := e.payloadHash
  status := "durable"

def DB.runtimeEventRow (d : DB) (e : Event) : RuntimeEvent where
  eventId := e.eventId
  producerId := e.producerId
  sequence := e.sequence
  taskId := e.taskId
  attemptId := e.attemptId
  segmentId := e.segmentId
  payloadHash := e.payloadHash
  body := e
  eventRevision := e.sequence
  actionSlot := d.actionSlot e.producerId e.eventId
  deliveryStatus := deliveryStatusOf e.kind

/-- Bytes an event takes of the control spool. -/
def DB.incomingBytes (d : DB) (e : Event) : Except CodeError Int :=
  match e.artifact with
  | some artifact =>
    if e.kind = .exited then .ok (d.encodedLen e)
    else do
      require (0 ≤ artifact.size ∧ artifact.size ≤ 1024 * 1024) .artifactTooLarge
      .ok (d.encodedLen e + artifact.size)
  | none => .ok (d.encodedLen e)

def State.orderDelivery (s : State) (deliver : Prop) [Decidable deliver]
    (eventId taskId : String) : Except CodeError (Table DeliveryOrder.eventId) :=
  if deliver then expect (s.appendDelivery eventId taskId) .conflict else .ok s.deliveryOrder

/-- What the insert trigger of `runtime_events` charges for an event. -/
def DB.chargeEvent (d : DB) (s : State) (e : Event) : Table StorageUsage.scope :=
  let runId := ((s.tasks.find? e.taskId).map Task.runId).getD ""
  let bytes := d.runtimeStoredBytes e
  charge (charge s.storageUsage .global bytes 0) (.run runId) bytes 0

/-- The insert into `runtime_events` and the delivery order. -/
def DB.appendEvent (d : DB) (s : State) (e : Event) : Except CodeError State := do
  let events ← expect (s.runtimeEvents.insert? (d.runtimeEventRow e)) .conflict
  let deliveryOrder ← s.orderDelivery (deliveryStatusOf e.kind = .pending) e.eventId e.taskId
  .ok { s with
    runtimeEvents := events
    storageUsage := d.chargeEvent s e
    deliveryOrder := deliveryOrder }

/-- The event names the segment's Host, task and attempt, and its launch command. -/
def boundTo (e : Event) (g : Segment) : Prop :=
  g.commandId = e.commandId ∧ g.hostId = e.producerId ∧ g.taskId = e.taskId ∧
    g.attemptId = e.attemptId

instance (e : Event) (g : Segment) : Decidable (boundTo e g) := inferInstanceAs (Decidable (_ ∧ _))

def wellFormed (e : Event) : Prop :=
  e.version = 1 ∧ e.producerId ≠ "" ∧ e.eventId ≠ "" ∧ 1 ≤ e.sequence ∧ e.taskId ≠ "" ∧
    e.attemptId ≠ "" ∧ e.segmentId ≠ "" ∧ e.commandId ≠ "" ∧ e.payloadHash ≠ ""

instance (e : Event) : Decidable (wellFormed e) := inferInstanceAs (Decidable (_ ∧ _))

/-- The Host may commit events of its registered epoch, also while it reconciles. -/
def RuntimeHost.acceptsEvents (h : RuntimeHost) (epoch : Nat) : Prop :=
  (h.status = .ready ∨ h.status = .reconciling) ∧ h.coordinatorEpoch = epoch

instance (h : RuntimeHost) (epoch : Nat) : Decidable (h.acceptsEvents epoch) :=
  inferInstanceAs (Decidable (_ ∧ _))

/-- An event its producer has not committed before. -/
def DB.commitNew (d : DB) (env : Env) (s : State) (e : Event) :
    Except CodeError (State × DurableAck) := do
  require (e.sequence = s.lastSequence e.producerId + 1) .eventSequenceConflict
  let incoming ← d.incomingBytes e
  d.storageAdmission s env.disk e.runId incoming false
  let g ← expect (s.segment? e.segmentId) .conflict
  require (boundTo e g) .conflict
  let s ← d.appendEvent s e
  let s ← d.applyEvent env s e
  .ok (s, hostAck e)

def DB.commitHostEvent (d : DB) (env : Env) (s : State) (e : Event) :
    Except CodeError (State × DurableAck) := do
  require (wellFormed e) .invalidEvent
  let host ← expect (s.hosts.find? e.producerId) .hostRejected
  require (host.acceptsEvents e.executionEpoch) .hostRejected
  match s.runtimeEvents.rows.find?
      (fun r => r.producerId = e.producerId && r.sequence = e.sequence) with
  | some old => do
    require (old.eventId = e.eventId ∧ old.payloadHash = e.payloadHash ∧
      canonicalHostEvent old.body = canonicalHostEvent e) .eventSequenceConflict
    .ok (s, hostAck e)
  | none => d.commitNew env s e

end Orchestrator.Store
