import Orchestrator.Store.Decisions

/-!
# Acknowledging delivered events
-/
namespace Orchestrator.Store
open Library

def AckDecision.valid (a : AckDecision) : Prop :=
  a.eventId ≠ "" ∧ 0 < a.eventRevision ∧ a.eventHash ≠ "" ∧ a.actionSlot ≠ "" ∧ a.commandId ≠ "" ∧
    a.decision ∈ ["handled", "waiting_user", "stale", "rejected"]

instance (a : AckDecision) : Decidable a.valid := inferInstanceAs (Decidable (_ ∧ _))

/-- The decision names the stored event exactly. -/
def DB.ackMatches (d : DB) (taskId : String) (a : AckDecision) (source : SourceEvent) : Prop :=
  source.taskId = taskId ∧ source.eventRevision = a.eventRevision ∧
    source.actionSlot = a.actionSlot ∧ source.payloadHash = d.toLower a.eventHash

instance (d : DB) (taskId : String) (a : AckDecision) (source : SourceEvent) :
    Decidable (d.ackMatches taskId a source) := inferInstanceAs (Decidable (_ ∧ _))

/-- The event was retried, reviewed or answered under the decision's binding. -/
def DB.hasBoundBusinessEffect (d : DB) (s : State) (taskId : String) (e : Event) (a : AckDecision) :
    Bool :=
  s.retryDecisions.rows.any (fun r => r.actionSlot = a.actionSlot && r.taskId = taskId &&
      r.sourceEventId = a.eventId && r.sourceEventRevision = a.eventRevision &&
      r.sourceEventHash = d.toLower a.eventHash && r.sourceSegmentId = e.segmentId) ||
    s.reviewDecisions.rows.any (fun r => r.actionSlot = a.actionSlot && r.taskId = taskId &&
      r.eventId = a.eventId && r.eventRevision = a.eventRevision &&
      r.eventHash = d.toLower a.eventHash) ||
    (e.kind = .question && e.questionId ≠ "" && 1 ≤ e.questionRevision &&
      s.questions.rows.any (fun q => q.questionId = e.questionId && q.taskId = taskId &&
        q.segmentId = e.segmentId && q.questionRevision = e.questionRevision &&
        q.workRevision = e.workRevision && q.answerHash ≠ "" &&
        (q.status = .resumeQueued || q.status = .resumeStarted)))

/-- A business decision concerns the task's current segment, or was carried out. -/
def DB.ackCurrent (d : DB) (s : State) (taskId : String) (e : Event) (a : AckDecision) :
    Except CodeError Unit :=
  if a.decision = "handled" ∨ a.decision = "waiting_user" then do
    let t ← expect (s.tasks.find? taskId) .conflict
    let current ← expect (s.latestSegment taskId) .conflict
    require (e.workRevision = t.workRevision) .conflict
    require (current.id = e.segmentId ∨
      (a.decision = "handled" ∧ d.hasBoundBusinessEffect s taskId e a = true)) .conflict
  else .ok ()

def DB.recordDecision (d : DB) (s : State) (taskId : String) (a : AckDecision)
    (source : SourceEvent) : Except CodeError State := do
  require (source.deliveryStatus = .pending) .conflict
  d.ackCurrent s taskId source.body a
  require (s.runtimeDecisions.Unused RuntimeDecision.eventId a.eventId ∧
    s.runtimeDecisions.Unused RuntimeDecision.commandId a.commandId) .conflict
  let decisions ← expect (s.runtimeDecisions.insert? {
    actionSlot := a.actionSlot
    eventId := a.eventId
    eventRevision := a.eventRevision
    eventHash := d.toLower a.eventHash
    decision := a.decision
    commandId := a.commandId }) .conflict
  .ok { s with
    runtimeDecisions := decisions
    runtimeEvents :=
      if source.fromReport then s.runtimeEvents
      else s.runtimeEvents.update (fun r => r.eventId = a.eventId && r.deliveryStatus = .pending)
        (fun r => { r with deliveryStatus := .acked }) (Table.keeps RuntimeEvent.eventId)
    reportEvents :=
      if source.fromReport then
        s.reportEvents.update (fun r => r.eventId = a.eventId && r.deliveryStatus = .pending)
          (fun r => { r with deliveryStatus := .acked }) (Table.keeps ReportEvent.eventId)
      else s.reportEvents }

def DB.applyAckDecision (d : DB) (taskId : String) (s : State) (a : AckDecision) :
    Except CodeError State := do
  let source ← expect (s.source a.eventId) .conflict
  require (d.ackMatches taskId a source) .conflict
  match s.runtimeDecisions.find? a.actionSlot with
  | some existing => do
    require (existing.decision = a.decision ∧ existing.eventHash = source.payloadHash ∧
      existing.eventRevision = source.eventRevision) .conflict
    .ok s
  | none => d.recordDecision s taskId a source

def DB.ackDecisions (d : DB) (s : State) (taskId deliveryId historyProof : String)
    (decisions : List AckDecision) : Except CodeError (State × Unit) := do
  require (taskId ≠ "" ∧ deliveryId ≠ "" ∧ validDigest historyProof = true ∧ decisions ≠ [] ∧
    decisions.length ≤ 64) .invalidAck
  require ((∀ a ∈ decisions, a.valid) ∧ (decisions.map AckDecision.actionSlot).Nodup) .invalidAck
  let decisionsHash := d.runtimeHash (d.encodeDecisions decisions)
  match s.deliveryReceipts.find? deliveryId with
  | some stored => do
    require (stored.taskId = taskId ∧ stored.historyProofSha256 = d.toLower historyProof ∧
      stored.decisionsHash = decisionsHash) .conflict
    .ok (s, ())
  | none => do
    let s ← decisions.foldlM (d.applyAckDecision taskId) s
    let receipts ← expect (s.deliveryReceipts.insert?
      ⟨deliveryId, taskId, d.toLower historyProof, decisionsHash⟩) .conflict
    .ok ({ s with deliveryReceipts := receipts }, ())

end Orchestrator.Store
