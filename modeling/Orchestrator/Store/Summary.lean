import Orchestrator.Store.Operations

/-!
# Summarising a run

`SummarizeRun` lists the tasks of a run with the actions their owner may take
next. It writes nothing, and repeats the guards of the operations it offers.
-/
namespace Orchestrator.Store
open Library

inductive SummaryAction where
  | status | collect | waitEvents | accept | answer | resume | retry | stop
  deriving DecidableEq, Repr

inductive SummaryGroup where
  | pending | running | blocked | completed
  deriving DecidableEq, Repr

structure SummaryTask where
  taskId : String
  status : TaskStatus
  group : SummaryGroup
  workRevision : Int
  activeSegments : Nat
  allowedActions : List SummaryAction
  deriving DecidableEq, Repr

structure RunSummary where
  version : Nat
  runId : String
  counts : List (SummaryGroup × Nat)
  tasks : List SummaryTask
  deriving DecidableEq, Repr

def TaskStatus.summaryGroup : TaskStatus → SummaryGroup
  | .ready | .resumeQueued | .resultReady => .pending
  | .running => .running
  | .completed | .cancelled => .completed
  | _ => .blocked

/-- A result of the task's latest segment is in the log of Host events. -/
def State.hasResult (s : State) (t : Task) : Bool :=
  s.runtimeEvents.rows.any (fun e => e.taskId = t.id && e.body.kind = .result &&
    (s.latestSegment t.id).map Segment.id = some e.segmentId)

def State.hasOpenQuestion (s : State) (t : Task) : Bool :=
  s.questions.rows.any (fun q =>
    q.taskId = t.id && q.status = .open && q.workRevision = t.workRevision)

/-- The event of the Host failed its attempt, by itself or by the review it was given. -/
def State.failing (s : State) (e : RuntimeEvent) : Bool :=
  e.body.kind = .failed || (e.body.kind = .result && s.reviewDecisions.rows.any (fun r =>
    r.eventId = e.eventId && r.decision = "reject"))

def State.hasFailure (s : State) (t : Task) : Bool :=
  s.runtimeEvents.rows.any (fun e => (s.segments.find? e.segmentId).any (fun g =>
    (s.attempts.find? g.attemptId).any (fun a => a.taskId = t.id && a.status = .failed &&
      (s.latestAttempt t.id).map Attempt.attemptNo = some a.attemptNo)) && s.failing e)

def State.offers (s : State) (t : Task) : List SummaryAction :=
  match t.status with
  | .ready | .resumeQueued | .running => [.waitEvents]
  | .resultReady => if s.hasResult t ∧ s.taskActive t.id = 0 then [.accept] else []
  | .waitingQuestion => if s.hasOpenQuestion t ∧ s.taskActive t.id = 0 then [.answer] else []
  | .interrupted => if s.taskActive t.id = 0 then [.resume] else []
  | .failed =>
    if s.hasFailure t ∧ s.taskActive t.id = 0 ∧
        (s.groupAttempts t.budgetGroupId : Int) < t.maxAttempts ∧
        s.groupAttempts t.budgetGroupId < 3 then [.retry] else []
  | _ => []

def State.summaryTask (s : State) (t : Task) : SummaryTask where
  taskId := t.id
  status := t.status
  group := t.status.summaryGroup
  workRevision := t.workRevision
  activeSegments := s.taskActive t.id
  allowedActions := [SummaryAction.status, .collect] ++ s.offers t ++
    if 0 < s.taskActive t.id then [SummaryAction.stop] else []

/-- `ValidateTaskOwner`: the run of the task, when the caller controls it. -/
def DB.validateTaskOwner (d : DB) (s : State) (taskId controller controlToken : String) :
    Except CodeError Run := do
  let t ← expect (s.tasks.find? taskId) .notFound
  let run ← expect (s.runs.find? t.runId) .notFound
  require (controller ≠ "" ∧ controlToken ≠ "" ∧ run.controllerThread = controller ∧
    run.controlTokenHash = d.runtimeHash controlToken) .ownerMismatch
  .ok run

def DB.summarizeRun (d : DB) (s : State) (taskId controller token : String) :
    Except CodeError RunSummary := do
  let run ← d.validateTaskOwner s taskId controller token
  let tasks := ((s.tasks.rows.filter (fun t => t.runId = run.id)).mergeSort
    (fun t u => t.id ≤ u.id)).map s.summaryTask
  .ok {
    version := 1
    runId := run.id
    counts := [.pending, .running, .blocked, .completed].map fun g =>
      (g, tasks.countP (fun t => t.group = g))
    tasks := tasks }

end Orchestrator.Store
