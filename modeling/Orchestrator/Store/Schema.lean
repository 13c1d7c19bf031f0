import Orchestrator.Contract
import Orchestrator.Library.Table
import Mathlib.Tactic.Simps.Basic

/-!
# Tables of the control database

One row type per table, with two liberties. Tables that are only ever written
together are one row: `tasks` with `task_runtime`, `segments` with
`segment_runtime` and its `budget_runtime` reservation, `runs` with
`run_control`. And a segment carries the `task_id` and `attempt_no` of its
attempt, which every query joins in and no statement changes.

Rows that decide scheduling form `Core`; the rest of the database is `State`.
-/
namespace Orchestrator.Store
open Library

inductive TaskStatus where
  | queued | ready | resumeQueued | running | stopping | unknown | waitingQuestion | interrupted
  | resultReady | completed | failed | cancelled | blockedDependency | budgetExhausted | integrated
  deriving DecidableEq, Repr

inductive AttemptStatus where
  | running | unknown | interrupted | resultReady | failed
  deriving DecidableEq, Repr

inductive SegmentStatus where
  | launchRequested | prepared | spawned | running | stopping | unknown | exited
  deriving DecidableEq, Repr

/-- `segment_runtime.outcome`, empty until an event or a stop decides it. -/
inductive Outcome where
  | none | question | result | stopped | failed
  deriving DecidableEq, Repr

inductive ReservationStatus where
  | reserved | settled
  deriving DecidableEq, Repr

inductive LaunchStatus where
  | reserved | ready | reconciling | offline | released
  deriving DecidableEq, Repr

inductive HostStatus where
  | ready | reconciling | offline | reconcileAuthorized | released
  deriving DecidableEq, Repr

inductive StopStatus where
  | pending | accepted | completed | unknown
  deriving DecidableEq, Repr

inductive QuestionStatus where
  | open | resumeQueued | resumeStarted | resolved
  deriving DecidableEq, Repr

inductive DeliveryStatus where
  | internal | pending | pendingSession | acked
  deriving DecidableEq, Repr

inductive CapabilityStatus where
  | pending | registered
  deriving DecidableEq, Repr

inductive ReportKind where
  | progress | question | result | failure
  deriving DecidableEq, Repr

inductive DeliveryMode where
  | native | collect
  deriving DecidableEq, Repr

inductive CompletionPolicy where
  | ownerReview | artifact | exitSuccessFixture
  deriving DecidableEq, Repr

structure Task where
  id : String
  runId : String
  status : TaskStatus
  dependencies : List String
  maxAttempts : Int
  createdAt : String
  hostLaunchId : String
  workRevision : Int
  budgetGroupId : String
  maxActiveMs : Int
  readySequence : Option Int
  adapterPayload : String
  fallbackPayloads : List String
  fallbackIndex : Nat
  completionPolicy : CompletionPolicy
  expectedArtifactSha256 : String
  deriving DecidableEq, Repr

@[simps]
def Task.withStatus (t : Task) (status : TaskStatus) : Task := { t with status := status }

/-- The task with a new status and a new place in the ready order. -/
@[simps]
def Task.enqueued (t : Task) (status : TaskStatus) (sequence : Int) : Task :=
  { t with status := status, readySequence := some sequence }

structure Attempt where
  id : String
  taskId : String
  attemptNo : Nat
  status : AttemptStatus
  deriving DecidableEq, Repr

structure Reservation where
  id : String
  budgetGroupId : String
  grantedMs : Int
  usedMs : Int
  status : ReservationStatus
  deriving DecidableEq, Repr

/-- `phase` is `segments.status`, which lags behind `status`, the
`segment_runtime.status` that decides slots. -/
structure Segment where
  id : String
  attemptId : String
  taskId : String
  attemptNo : Nat
  segmentNo : Nat
  phase : SegmentStatus
  hostId : String
  commandId : String
  executionEpoch : Nat
  slotToken : String
  launchIntentHash : String
  reservation : Reservation
  status : SegmentStatus
  outcome : Outcome
  deadlineUnixMs : Int
  createdAt : String
  deriving DecidableEq, Repr

structure Run where
  id : String
  controllerThread : String
  planRevision : Int
  originContextId : String
  originPid : Int
  originBirth : String
  deliveryMode : DeliveryMode
  controlTokenHash : String
  deriving DecidableEq, Repr

structure HostLaunch where
  id : String
  tokenHash : String
  originContextId : String
  hostGeneration : String
  executable : String
  status : LaunchStatus
  hostId : Option String
  deriving DecidableEq, Repr

structure RuntimeHost where
  id : String
  launchId : String
  originContextId : String
  hostGeneration : String
  pid : Int
  birth : String
  executable : String
  coordinatorEpoch : Nat
  status : HostStatus
  deriving DecidableEq, Repr

structure OwnerRebind where
  runId : String
  hostGeneration : String
  originPid : Int
  originBirth : String
  attachmentProofSha256 : String
  deriving DecidableEq, Repr

structure RuntimeEvent where
  eventId : String
  producerId : String
  sequence : Int
  taskId : String
  attemptId : String
  segmentId : String
  payloadHash : String
  body : Event
  eventRevision : Int
  actionSlot : String
  deliveryStatus : DeliveryStatus
  deriving DecidableEq, Repr

structure RuntimeDecision where
  actionSlot : String
  eventId : String
  eventRevision : Int
  eventHash : String
  decision : String
  commandId : String
  deriving DecidableEq, Repr

structure DeliveryReceipt where
  deliveryId : String
  taskId : String
  historyProofSha256 : String
  decisionsHash : String
  deriving DecidableEq, Repr

structure ReviewDecision where
  actionSlot : String
  taskId : String
  eventId : String
  eventRevision : Int
  eventHash : String
  decision : String
  commandId : String
  deriving DecidableEq, Repr

structure RetryDecision where
  actionSlot : String
  taskId : String
  workRevision : Int
  sourceEventId : String
  sourceEventRevision : Int
  sourceEventHash : String
  sourceSegmentId : String
  nextAttemptNo : Int
  useNextFallback : Bool
  commandId : String
  deriving DecidableEq, Repr

structure ReportCapability where
  capabilityId : String
  segmentId : String
  producerId : String
  tokenHash : String
  capabilityDir : String
  runId : String
  taskId : String
  attemptId : String
  workRevision : Int
  executionEpoch : Nat
  status : CapabilityStatus
  usedBytes : Int
  deriving DecidableEq, Repr

structure ReportEvent where
  eventId : String
  capabilityId : String
  sequence : Int
  kind : ReportKind
  payloadHash : String
  body : Event
  eventRevision : Int
  actionSlot : String
  deliveryStatus : DeliveryStatus
  accountedBytes : Int
  deriving DecidableEq, Repr

structure DeliveryOrder where
  ordinal : Nat
  eventId : String
  taskId : String
  deriving DecidableEq, Repr

structure StopRow where
  commandId : String
  hostId : String
  segmentId : String
  reason : String
  deadlineUnixMs : Int
  status : StopStatus
  createdAt : String
  deriving DecidableEq, Repr

structure Question where
  questionId : String
  taskId : String
  attemptId : String
  segmentId : String
  questionRevision : Int
  workRevision : Int
  sessionKind : String
  sessionId : String
  status : QuestionStatus
  answerHash : String
  answerText : String
  deriving DecidableEq, Repr

structure SegmentSession where
  segmentId : String
  attemptId : String
  sessionKind : String
  sessionId : String
  eventId : String
  deriving DecidableEq, Repr

/-- A row of `storage_usage` is named by its scope. -/
inductive Scope where
  | global | run (id : String) | capability (id : String)
  deriving DecidableEq, Repr

structure StorageUsage where
  scope : Scope
  totalBytes : Int
  progressBytes : Int
  deriving DecidableEq, Repr

theorem two_in_range : 1 ≤ 2 ∧ 2 ≤ 32 := by decide

theorem none_in_range : ∀ kn ∈ ([] : List (String × Nat)), 1 ≤ kn.2 ∧ kn.2 ≤ 32 := nofun

/-- `scheduler_config`: only bodies that passed `ConfigureConcurrency`, or the
default of a fresh database, are ever stored. -/
structure ConcurrencyLimits where
  global : Nat := 2
  providers : List (String × Nat) := []
  workspaces : List (String × Nat) := []
  global_range : 1 ≤ global ∧ global ≤ 32 := by first | exact two_in_range | decide
  providers_range : ∀ kn ∈ providers, 1 ≤ kn.2 ∧ kn.2 ≤ 32 := by
    first | exact none_in_range | decide
  workspaces_range : ∀ kn ∈ workspaces, 1 ≤ kn.2 ∧ kn.2 ≤ 32 := by
    first | exact none_in_range | decide

/-- The rows scheduling reads and writes. -/
structure Core where
  limits : ConcurrencyLimits
  nextReadySequence : Int
  tasks : Table Task.id
  attempts : Table Attempt.id
  segments : Table Segment.id

structure State extends Core where
  coordinatorEpoch : Option Nat
  runs : Table Run.id
  hostLaunches : Table HostLaunch.id
  hosts : Table RuntimeHost.id
  ownerRebinds : Table (fun r : OwnerRebind => (r.runId, r.hostGeneration))
  runtimeEvents : Table RuntimeEvent.eventId
  runtimeDecisions : Table RuntimeDecision.actionSlot
  deliveryReceipts : Table DeliveryReceipt.deliveryId
  reviewDecisions : Table ReviewDecision.actionSlot
  retryDecisions : Table RetryDecision.actionSlot
  reportCapabilities : Table ReportCapability.capabilityId
  reportEvents : Table ReportEvent.eventId
  deliveryOrder : Table DeliveryOrder.eventId
  stops : Table StopRow.segmentId
  questions : Table Question.questionId
  sessions : Table SegmentSession.segmentId
  storageUsage : Table StorageUsage.scope

def Core.fresh (limits : ConcurrencyLimits) : Core where
  limits := limits
  nextReadySequence := 1
  tasks := .empty _
  attempts := .empty _
  segments := .empty _

/-- A database as the migrations leave it, with an installed concurrency policy. -/
def State.fresh (limits : ConcurrencyLimits) : State where
  toCore := Core.fresh limits
  coordinatorEpoch := none
  runs := .empty _
  hostLaunches := .empty _
  hosts := .empty _
  ownerRebinds := .empty _
  runtimeEvents := .empty _
  runtimeDecisions := .empty _
  deliveryReceipts := .empty _
  reviewDecisions := .empty _
  retryDecisions := .empty _
  reportCapabilities := .empty _
  reportEvents := .empty _
  deliveryOrder := .empty _
  stops := .empty _
  questions := .empty _
  sessions := .empty _
  storageUsage := ⟨[⟨.global, 0, 0⟩], by simp⟩

/-- The statuses every slot query lists: all but `exited`. -/
def SegmentStatus.active : SegmentStatus → Bool
  | .exited => false
  | _ => true

def Segment.active (g : Segment) : Bool := g.status.active

theorem SegmentStatus.active_iff {s : SegmentStatus} : s.active = true ↔ s ≠ .exited := by
  cases s <;> simp [active]

end Orchestrator.Store
