import Orchestrator.Store.Lifecycle
import Orchestrator.Library.Run

/-!
# The store as a state machine

Every operation that writes, as one type of requests. A request runs in one
transaction: refused, it leaves the database as it was.
-/
namespace Orchestrator.Store
open Library

inductive Op where
  | submitPlan (env : Env) (plan : PlanSpec)
  | beginCoordinatorEpoch (epoch : Nat)
  | registerHost (hello : HostHello) (epoch : Nat)
  | authorizeHostRebind (launchId : String) (pid : Int) (birth : String)
  | beginHostReconcile (hostId : String)
  | finishHostReconcile (hostId : String)
  | markHostOffline (hostId : String) (epoch : Nat)
  | claimReady (env : Env) (hostId : String) (epoch : Nat) (slots : Int)
  | pendingLaunches (hostId : String) (epoch : Nat)
  | commitHostEvent (env : Env) (event : Event)
  | registerReportCapability (info : Option FileInfo) (registration : ReportCapabilityRegistration)
  | commitReportEvent (env : Env) (probe : ArtifactProbe) (spec : ReportEventSpec)
  | queueResume (taskId : String) (workRevision : Int)
  | answerQuestion (spec : AnswerSpec)
  | reviewResult (spec : ReviewSpec)
  | queueRetry (spec : RetrySpec)
  | ackDecisions (taskId deliveryId historyProof : String) (decisions : List AckDecision)
  | requestStop (env : Env) (taskId : String) (workRevision : Int) (reason : String)
  | markStoppingUnknown
  | retireHost (hostId : String)
  | rebindOwner (spec : RebindOwnerSpec)

/-- The Host event an operation commits. -/
def Op.event : Op → Option Event
  | .commitHostEvent _ e => some e
  | _ => none

/-- The state an operation leaves, without its reply. -/
def committed {α : Type} (r : Except CodeError (State × α)) : Except CodeError State :=
  r.map Prod.fst

def DB.exec (d : DB) (s : State) : Op → Except CodeError State
  | .submitPlan env plan => committed (d.submitPlan env s plan)
  | .beginCoordinatorEpoch epoch => committed (Store.beginCoordinatorEpoch s epoch)
  | .registerHost hello epoch => committed (d.registerHost s hello epoch)
  | .authorizeHostRebind launchId pid birth =>
    committed (Store.authorizeHostRebind s launchId pid birth)
  | .beginHostReconcile hostId => committed (Store.beginHostReconcile s hostId)
  | .finishHostReconcile hostId => committed (Store.finishHostReconcile s hostId)
  | .markHostOffline hostId epoch => committed (Store.markHostOffline s hostId epoch)
  | .claimReady env hostId epoch slots => committed (d.claimReady env s hostId epoch slots)
  | .pendingLaunches hostId epoch => committed (Store.pendingLaunches s hostId epoch)
  | .commitHostEvent env event => committed (d.commitHostEvent env s event)
  | .registerReportCapability info r => committed (d.registerReportCapability s info r)
  | .commitReportEvent env probe spec => committed (d.commitReportEvent env probe s spec)
  | .queueResume taskId workRevision => committed (Store.queueResume s taskId workRevision)
  | .answerQuestion spec => committed (d.answerQuestion s spec)
  | .reviewResult spec => committed (d.reviewResult s spec)
  | .queueRetry spec => committed (d.queueRetry s spec)
  | .ackDecisions taskId deliveryId proof decisions =>
    committed (d.ackDecisions s taskId deliveryId proof decisions)
  | .requestStop env taskId workRevision reason =>
    committed (Store.requestStop env s taskId workRevision reason)
  | .markStoppingUnknown => committed (Store.markStoppingUnknown s)
  | .retireHost hostId => committed (Store.retireHost s hostId)
  | .rebindOwner spec => committed (d.rebindOwner s spec)

def DB.step (d : DB) (s : State) (op : Op) : State :=
  match d.exec s op with
  | .ok s' => s'
  | .error _ => s

def DB.run (d : DB) (s : State) (ops : List Op) : State := Library.run d.step s ops

/-- A state some run of operations reaches from a fresh database. -/
def DB.Reachable (d : DB) (limits : ConcurrencyLimits) (s : State) : Prop :=
  ∃ ops, s = d.run (State.fresh limits) ops

theorem committed_ok {α : Type} {r : Except CodeError (State × α)} {s : State} :
    committed r = .ok s ↔ ∃ a, r = .ok (s, a) := by
  cases r with
  | error e => simp [committed, Except.map]
  | ok p => cases p; simp [committed, Except.map]

theorem step_of_exec {d : DB} {s s' : State} {op : Op} (h : d.exec s op = .ok s') :
    d.step s op = s' := by simp [DB.step, h]

theorem step_of_error {d : DB} {s : State} {op : Op} {e : CodeError} (h : d.exec s op = .error e) :
    d.step s op = s := by simp [DB.step, h]

/-- What every accepted operation preserves, every step preserves. -/
theorem step_induct {d : DB} {s : State} {op : Op} {P : State → Prop} (h : P s)
    (hok : ∀ s', d.exec s op = .ok s' → P s') : P (d.step s op) := by
  cases hx : d.exec s op with
  | ok s' => rw [step_of_exec hx]; exact hok s' hx
  | error e => rw [step_of_error hx]; exact h

theorem reachable_fresh (d : DB) (limits : ConcurrencyLimits) :
    d.Reachable limits (State.fresh limits) := ⟨[], rfl⟩

theorem reachable_step {d : DB} {limits : ConcurrencyLimits} {s : State} (op : Op)
    (h : d.Reachable limits s) : d.Reachable limits (d.step s op) := by
  obtain ⟨ops, rfl⟩ := h
  exact ⟨ops ++ [op], (run_concat).symm⟩

/-- An invariant of accepted operations holds in every reachable state. -/
theorem reachable_induct {d : DB} {limits : ConcurrencyLimits} {P : State → Prop}
    (h0 : P (State.fresh limits)) (hok : ∀ s op s', P s → d.exec s op = .ok s' → P s')
    {s : State} (h : d.Reachable limits s) : P s := by
  obtain ⟨ops, rfl⟩ := h
  exact run_invariant h0 fun s op hs => step_induct hs fun s' => hok s op s' hs

/-! ## A small deployment

One launch of one run, for evaluating the store. -/

def hexDigit (n : Nat) : Char := Char.ofNat (if n < 10 then 48 + n else 87 + n)

def hexDigits : Nat → Nat → List Char
  | 0, _ => []
  | k + 1, n => hexDigit (n % 16) :: hexDigits k (n / 16)

/-- A digest of 64 hexadecimal digits. -/
def toyDigest (text : String) : String :=
  String.ofList (hexDigits 64 (text.toList.foldl (fun n c => n * 1114112 + c.toNat + 1) 0))

def toyPlatform : Platform where
  workspaceKey := id
  unmarshalPayload := fun _ => some ⟨"claude", "", "/work"⟩
  unmarshalKind := fun _ => none
  jsonValid := fun _ => true
  compact := id
  runtimeHash := toyDigest
  toLower := id
  trimSpace := id
  rel := fun dir path => some (String.ofList (path.toList.drop (dir.toList.length + 1)))
  join := fun dir path => dir ++ "/" ++ path
  encodedLen := fun _ => 1024
  encodeDecisions := fun as => String.join (as.map AckDecision.eventId)
  canonicalReportPayload := some
  decodeReport := fun text => some {
    status := "waiting_user"
    questionId := text
    questionRevision := 1
    questionKind := "technical"
    artifact := { path := "/cap/" ++ text, size := 1, sha256 := toyDigest text } }
  decodeProgress := fun _ => none

def toyDB : DB := { toPlatform := toyPlatform }

/-- The environment of the `n`th call, for two digits. -/
def toyEnv (n : Nat) : Env where
  now := ⟨1767225600000 + 1000 * n, "2026-01-01T00:00:" ++ toString n ++ "Z"⟩
  disk := some (1024 * 1024 * 1024)
  newId := fun kind => kind ++ "-" ++ toString n

def toyTask (id : String) (maxAttempts : Int) (dependencies : List String) : TaskSpec :=
  { id := id, runId := "run", maxAttempts := maxAttempts, dependencies := dependencies,
    adapterPayload := "payload" }

def toyPlan (tasks : List TaskSpec) : PlanSpec where
  run := {
    id := "run"
    controllerThread := "thread"
    planRevision := 1
    originContextId := "origin"
    originPid := 1
    originBirth := "birth" }
  host := { originContextId := "origin", hostGeneration := "generation", executable := "/bin/host" }
  tasks := tasks
  launchId := "host"
  launchToken := "token"

def toyHello : HostHello where
  launchId := "host"
  launchToken := "token"
  originContextId := "origin"
  originPid := 1
  originBirth := "birth"
  hostGeneration := "generation"
  pid := 2
  birth := "birth"
  executable := "/bin/host"

/-- A submitted plan, and its Host ready. -/
def toyStart (tasks : List TaskSpec) : List Op :=
  [.beginCoordinatorEpoch 1, .submitPlan (toyEnv 10) (toyPlan tasks), .registerHost toyHello 1,
    .beginHostReconcile "host", .finishHostReconcile "host"]

def toyClaim (n : Nat) : Op := .claimReady (toyEnv n) "host" 1 0

/-- An event of the Host about the segment claim `n` launched for the attempt of claim `m`. -/
def toyEventOf (taskId : String) (m n : Nat) (sequence : Int) (kind : EventKind) : Event where
  version := 1
  producerId := "host"
  eventId := "host:" ++ toString sequence
  runId := "run"
  taskId := taskId
  attemptId := "attempt-" ++ toString m
  segmentId := "segment-" ++ toString n
  workRevision := 1
  executionEpoch := 1
  commandId := "command-" ++ toString n
  sequence := sequence
  kind := kind
  payloadHash := toyDigest (kind.text ++ toString n)
  questionId := if kind = .question then "host:" ++ toString sequence ++ ":question" else ""
  questionRevision := if kind = .question then 1 else 0
  sessionKind := if kind = .question ∨ kind = .session then "session-id" else ""
  sessionId := if kind = .question ∨ kind = .session then "session" else ""

def toyEvent (taskId : String) (n : Nat) (sequence : Int) (kind : EventKind) : Event :=
  toyEventOf taskId n n sequence kind

def toyCommit (taskId : String) (n : Nat) (sequence : Int) (kind : EventKind) : Op :=
  .commitHostEvent (toyEnv 10) (toyEvent taskId n sequence kind)

end Orchestrator.Store
