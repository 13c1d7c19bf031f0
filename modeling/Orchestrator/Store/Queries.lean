import Orchestrator.Store.Operations

/-!
# Which Hosts may go, and which pins

The queries by which the coordinator picks the Hosts it retires and the tasks
whose executable it unpins.
-/
namespace Orchestrator.Store
open Library

/-- The statuses `RetirableHosts` counts as done. -/
def TaskStatus.finished : TaskStatus → Bool
  | .completed | .resultReady | .cancelled | .failed | .budgetExhausted | .blockedDependency => true
  | _ => false

def State.retirable (s : State) (h : RuntimeHost) : Bool :=
  h.status = .ready &&
    !s.tasks.rows.any (fun t => t.hostLaunchId = h.launchId && !t.status.finished) &&
    !s.reportEvents.rows.any (fun r => r.deliveryStatus = .pendingSession &&
      (s.reportCapabilities.find? r.capabilityId).any (fun c => c.producerId = h.id))

def retirableHosts (s : State) : List String :=
  ((s.hosts.rows.filter s.retirable).map RuntimeHost.id).mergeSort

/-! ## ReleasableTasks -/

/-- The statuses `ReleasableTasks` takes as they are. -/
def TaskStatus.final : TaskStatus → Bool
  | .completed | .cancelled | .budgetExhausted | .blockedDependency => true
  | _ => false

structure ReleasableTask where
  taskId : String
  executable : String
  deriving DecidableEq, Repr

/-- The statuses of a question that is not resolved. -/
def QuestionStatus.pending : QuestionStatus → Bool
  | .open | .resumeQueued | .resumeStarted => true
  | .resolved => false

def DeliveryStatus.undelivered : DeliveryStatus → Bool
  | .pending | .pendingSession => true
  | _ => false

def State.releasableTask (s : State) (t : Task) : Bool :=
  (t.status.final ||
      t.status = .failed && min t.maxAttempts 3 ≤ (s.groupAttempts t.budgetGroupId : Int)) &&
    !s.segments.rows.any (fun g => g.taskId = t.id && g.active) &&
    !s.runtimeEvents.rows.any (fun e => e.taskId = t.id && e.deliveryStatus = .pending) &&
    !s.reportEvents.rows.any (fun r => r.deliveryStatus.undelivered &&
      (s.reportCapabilities.find? r.capabilityId).any (fun c => c.taskId = t.id)) &&
    !s.questions.rows.any (fun q => q.taskId = t.id && q.status.pending)

def releasableTasks (s : State) : List ReleasableTask :=
  ((s.tasks.rows.filter s.releasableTask).filterMap fun t =>
    (s.hostLaunches.find? t.hostLaunchId).map fun l => ⟨t.id, l.executable⟩).mergeSort
      (fun r r' => r.taskId ≤ r'.taskId)

/-! ## ActiveTasks and CompletelyIdle -/

structure ActiveTask where
  taskId : String
  workRevision : Int
  deriving DecidableEq, Repr

def activeTasks (s : State) : List ActiveTask :=
  ((s.tasks.rows.filter fun t => s.segments.rows.any fun g => g.taskId = t.id && g.active).map
    fun t => ⟨t.id, t.workRevision⟩).mergeSort (fun a b => a.taskId ≤ b.taskId)

/-- The statuses of a task that `CompletelyIdle` counts. -/
def TaskStatus.outstanding : TaskStatus → Bool
  | .completed | .failed | .cancelled | .blockedDependency | .budgetExhausted | .integrated => false
  | _ => true

def State.completelyIdle (s : State) : Bool :=
  s.segments.count Segment.active + s.tasks.count (fun t => t.status.outstanding) +
    s.runtimeEvents.count (fun e => e.deliveryStatus = .pending) +
    s.reportEvents.count (fun r => r.deliveryStatus.undelivered) +
    s.stops.count (fun r => r.status = .pending || r.status = .accepted) +
    s.hosts.count (fun h => h.status = .ready) = 0

end Orchestrator.Store
