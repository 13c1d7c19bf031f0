import Orchestrator.Store.Dependencies

/-!
# Admitting plans and Hosts

`SubmitPlan` with its plan check, and the operations on Host launches.
-/
namespace Orchestrator.Store
open Library

structure RunSpec where
  id : String
  controllerThread : String
  planRevision : Int
  originContextId : String
  originPid : Int
  originBirth : String
  deliveryMode : String := ""
  deriving DecidableEq, Repr

structure TaskSpec where
  id : String
  runId : String
  dependencies : List String := []
  maxAttempts : Int := 0
  workRevision : Int := 0
  budgetGroupId : String := ""
  maxActiveMs : Int := 0
  adapterPayload : String := ""
  fallbackPayloads : List String := []
  completionPolicy : String := ""
  expectedArtifactSha256 : String := ""
  deriving DecidableEq, Repr

structure HostLaunchSpec where
  originContextId : String
  hostGeneration : String
  executable : String
  deriving DecidableEq, Repr

structure PlanSpec where
  run : RunSpec
  host : HostLaunchSpec
  tasks : List TaskSpec
  launchId : String := ""
  launchToken : String := ""
  controlToken : String := ""
  deriving DecidableEq, Repr

structure SubmitReceipt where
  launchId : String
  launchToken : String
  controlToken : String
  deriving DecidableEq, Repr

/-! ## validatePlan -/

def TaskSpec.group (t : TaskSpec) : String :=
  if t.budgetGroupId = "" then t.id else t.budgetGroupId

def TaskSpec.active (t : TaskSpec) : Int :=
  if t.maxActiveMs ≤ 0 ∨ t.maxActiveMs > defaultSegmentActiveMs then defaultSegmentActiveMs
  else t.maxActiveMs

/-- The checks on one task of the plan, given the tasks before it. -/
def DB.validateTask (d : DB) (runId : String) (before : List TaskSpec) (task : TaskSpec) :
    Except CodeError Unit := do
  require (task.id ≠ "" ∧ task.runId = runId ∧ 1 ≤ task.maxAttempts ∧ task.maxAttempts ≤ 3)
    .invalidDag
  require (∀ t ∈ before, t.id ≠ task.id) .invalidDag
  require (task.completionPolicy ∈ ["", "owner_review", "artifact", "exit_success_fixture"])
    .invalidDag
  require (task.completionPolicy = "artifact" → validDigest task.expectedArtifactSha256 = true)
    .invalidDag
  require (task.completionPolicy ≠ "artifact" → task.expectedArtifactSha256 = "") .invalidDag
  require (task.completionPolicy = "exit_success_fixture" →
    d.unmarshalKind task.adapterPayload = some "fake") .invalidDag
  require (∀ fallback ∈ task.fallbackPayloads, fallback ≠ "" ∧ d.jsonValid fallback = true)
    .invalidDag
  require (∀ t ∈ before, t.group = task.group → t.maxAttempts = task.maxAttempts) .invalidDag
  require (∀ t ∈ before, t.group = task.group → t.active = task.active) .invalidDag

def DB.validateTasks (d : DB) (runId : String) (before : List TaskSpec) :
    List TaskSpec → Except CodeError Unit
  | [] => .ok ()
  | task :: tasks => do
    d.validateTask runId before task
    d.validateTasks runId (before ++ [task]) tasks

/-- The depth-first search of `validatePlan`: `path` are the ids in state 1,
`done` those in state 2. Ids on the path are distinct ids of the plan, so a fuel
above their number is never used up (`visit_ne_outOfFuel`). -/
def visit (tasks : List TaskSpec) :
    Nat → List String → List String → String → Except CodeError (List String)
  | 0, _, _, _ => .error .outOfFuel
  | fuel + 1, path, done, id => do
    require (id ∉ path) .invalidDag
    if id ∈ done then .ok done
    else
      let task ← expect (tasks.find? (fun t => t.id = id)) .invalidDag
      let done ← task.dependencies.foldlM (fun done dep => do
        require (dep ≠ id) .invalidDag
        require (∃ t ∈ tasks, t.id = dep) .invalidDag
        visit tasks fuel (id :: path) done dep) done
      .ok (id :: done)

def DB.validatePlan (d : DB) (p : PlanSpec) : Except CodeError Unit := do
  require (p.run.id ≠ "" ∧ p.run.controllerThread ≠ "" ∧ 1 ≤ p.run.planRevision ∧
    p.run.originContextId ≠ "" ∧ 0 < p.run.originPid ∧ p.run.originBirth ≠ "") .invalidRun
  require (p.host.originContextId = p.run.originContextId ∧ p.host.hostGeneration ≠ "" ∧
    p.host.executable ≠ "" ∧ p.tasks ≠ [] ∧ p.tasks.length ≤ 64) .invalidDag
  d.validateTasks p.run.id [] p.tasks
  let _ ← p.tasks.foldlM (fun done t => visit p.tasks (p.tasks.length + 1) [] done t.id) []

/-! ## SubmitPlan -/

def parseDeliveryMode : String → Option DeliveryMode
  | "" | "native" => some .native
  | "collect" => some .collect
  | _ => none

def parseCompletionPolicy : String → CompletionPolicy
  | "artifact" => .artifact
  | "exit_success_fixture" => .exitSuccessFixture
  | _ => .ownerReview

/-- The row of an admitted task. -/
def DB.taskRow (d : DB) (launchId stamp : String) (task : TaskSpec) (ready : Option Int) :
    Task where
  id := task.id
  runId := task.runId
  status := if task.dependencies = [] then .ready else .queued
  dependencies := task.dependencies
  maxAttempts := task.maxAttempts
  createdAt := stamp
  hostLaunchId := launchId
  workRevision := if task.workRevision < 1 then 1 else task.workRevision
  budgetGroupId := task.group
  maxActiveMs := task.active
  readySequence := ready
  adapterPayload := if task.adapterPayload = "" then "{}" else task.adapterPayload
  fallbackPayloads := task.fallbackPayloads.map d.compact
  fallbackIndex := 0
  completionPolicy := parseCompletionPolicy task.completionPolicy
  expectedArtifactSha256 := d.toLower task.expectedArtifactSha256

def DB.insertTask (d : DB) (launchId stamp : String) (c : Core) (task : TaskSpec) :
    Except CodeError Core := do
  let (ready, c) :=
    if task.dependencies = [] then
      let (sequence, c) := c.takeReadySequence
      (some sequence, c)
    else (none, c)
  let row := d.taskRow launchId stamp task ready
  let tasks ← expect (c.tasks.insert? row) .conflict
  require (d.jsonValid row.adapterPayload = true) .invalidAdapterPayload
  .ok { c with tasks := tasks }

def DB.submitPlan (d : DB) (env : Env) (s : State) (p : PlanSpec) :
    Except CodeError (State × SubmitReceipt) := do
  let mode ← expect (parseDeliveryMode p.run.deliveryMode) .deliveryModeInvalid
  d.validatePlan p
  let launchId := if p.launchId = "" then env.newId "host-launch" else p.launchId
  let token := if p.launchToken = "" then env.newId "host-token" else p.launchToken
  let controlToken := if p.controlToken = "" then env.newId "control-token" else p.controlToken
  require (s.hostLaunches.count (fun l => l.status ≠ .released) < 4) .admissionDeferred
  let runs ← expect (s.runs.insert? {
    id := p.run.id
    controllerThread := p.run.controllerThread
    planRevision := p.run.planRevision
    originContextId := p.run.originContextId
    originPid := p.run.originPid
    originBirth := p.run.originBirth
    deliveryMode := mode
    controlTokenHash := d.runtimeHash controlToken }) .conflict
  let hostLaunches ← expect (s.hostLaunches.insert? {
    id := launchId
    tokenHash := d.runtimeHash token
    originContextId := p.host.originContextId
    hostGeneration := p.host.hostGeneration
    executable := p.host.executable
    status := .reserved
    hostId := none }) .sql
  let core ← p.tasks.foldlM (d.insertTask launchId env.now.stamp) s.toCore
  .ok ({ s with toCore := core, runs := runs, hostLaunches := hostLaunches },
    ⟨launchId, token, controlToken⟩)

/-! ## Hosts -/

def beginCoordinatorEpoch (s : State) (epoch : Nat) : Except CodeError (State × Unit) := do
  require (epoch ≠ 0) .invalidEpoch
  .ok ({ s with
    coordinatorEpoch := some epoch
    hosts := s.hosts.update (fun _ => true)
      (fun h => { h with status := .offline, coordinatorEpoch := epoch })
    hostLaunches := s.hostLaunches.update (fun l => l.status = .ready)
      (fun l => { l with status := .offline }) }, ())

/-- `SELECT ... FROM runs JOIN tasks JOIN task_runtime WHERE host_launch_id=? LIMIT 1`. -/
def State.launchRun (s : State) (launchId : String) : Option Run :=
  (s.tasks.rows.filter (fun t => t.hostLaunchId = launchId)).findSome?
    (fun t => s.runs.find? t.runId)

def State.hostActive (s : State) (hostId : String) : Nat :=
  s.segments.count (fun g => g.hostId = hostId && g.active)

/-- `INSERT ... ON CONFLICT(id) DO UPDATE`; `launch_id` is `UNIQUE`. -/
def upsertHost (hosts : Table RuntimeHost.id) (h : RuntimeHost) : Option (Table RuntimeHost.id) :=
  match hosts.find? h.id with
  | some _ => some (hosts.update (fun r => r.id = h.id) (fun r =>
      { r with
        pid := h.pid
        birth := h.birth
        executable := h.executable
        coordinatorEpoch := h.coordinatorEpoch
        status := .ready }))
  | none => if hosts.Unused RuntimeHost.launchId h.launchId then hosts.insert? h else none

/-- A launch that has a Host takes another process only while nothing runs there,
or with an authorization to reconcile. -/
def State.mayRegister (s : State) (existing : String) (hello : HostHello) :
    Except CodeError Unit :=
  if existing = "" then .ok ()
  else do
    let host ← expect (s.hosts.find? existing) .hostRejected
    require ((host.pid = hello.pid ∧ host.birth = hello.birth) ∨ s.hostActive existing = 0 ∨
      host.status = .reconcileAuthorized) .hostRejected

def DB.registerHost (d : DB) (s : State) (hello : HostHello) (epoch : Nat) :
    Except CodeError (State × String) := do
  require (hello.launchId ≠ "" ∧ hello.launchToken ≠ "" ∧ hello.originContextId ≠ "" ∧
    0 < hello.originPid ∧ hello.originBirth ≠ "" ∧ hello.hostGeneration ≠ "" ∧ 0 < hello.pid ∧
    hello.birth ≠ "" ∧ hello.executable ≠ "" ∧ epoch ≠ 0) .hostRejected
  let launch ← expect (s.hostLaunches.find? hello.launchId) .hostRejected
  require (launch.tokenHash = d.runtimeHash hello.launchToken ∧
    launch.originContextId = hello.originContextId ∧
    launch.hostGeneration = hello.hostGeneration ∧ launch.executable = hello.executable)
    .hostRejected
  let run ← expect (s.launchRun hello.launchId) .hostRejected
  require (run.originPid = hello.originPid ∧ run.originBirth = hello.originBirth) .hostRejected
  let existing := launch.hostId.getD ""
  let hostId := if existing = "" then hello.launchId else existing
  s.mayRegister existing hello
  let hosts ← expect (upsertHost s.hosts {
    id := hostId
    launchId := hello.launchId
    originContextId := hello.originContextId
    hostGeneration := hello.hostGeneration
    pid := hello.pid
    birth := hello.birth
    executable := hello.executable
    coordinatorEpoch := epoch
    status := .ready }) .sql
  .ok ({ s with
    hosts := hosts
    hostLaunches := s.hostLaunches.update (fun l => l.id = hello.launchId)
      (fun l => { l with hostId := some hostId, status := .ready }) }, hostId)

def authorizeHostRebind (s : State) (launchId : String) (pid : Int) (birth : String) :
    Except CodeError (State × Unit) := do
  let matched := fun h : RuntimeHost =>
    (h.launchId = launchId && h.pid = pid && h.birth = birth && h.status = .offline : Bool)
  require (s.hosts.count matched = 1) .hostRejected
  .ok ({ s with
    hosts := s.hosts.update matched (fun h => { h with status := .reconcileAuthorized }) }, ())

def setLaunchStatus (launches : Table HostLaunch.id) (hostId : String) (status : LaunchStatus) :
    Table HostLaunch.id :=
  launches.update (fun l => l.hostId = some hostId) (fun l => { l with status := status })

def beginHostReconcile (s : State) (hostId : String) : Except CodeError (State × Unit) :=
  .ok ({ s with
    hosts := s.hosts.update (fun h => h.id = hostId) (fun h => { h with status := .reconciling })
    hostLaunches := setLaunchStatus s.hostLaunches hostId .reconciling }, ())

def finishHostReconcile (s : State) (hostId : String) : Except CodeError (State × Unit) :=
  .ok ({ s with
    hosts := s.hosts.update (fun h => h.id = hostId && h.status = .reconciling)
      (fun h => { h with status := .ready })
    hostLaunches := setLaunchStatus s.hostLaunches hostId .ready }, ())

def markHostOffline (s : State) (hostId : String) (epoch : Nat) : Except CodeError (State × Unit) :=
  let matched := fun h : RuntimeHost =>
    (h.id = hostId && h.coordinatorEpoch = epoch && h.status = .ready : Bool)
  .ok ({ s with
    hosts := s.hosts.update matched (fun h => { h with status := .offline })
    hostLaunches :=
      if s.hosts.count matched = 1 then setLaunchStatus s.hostLaunches hostId .offline
      else s.hostLaunches }, ())

end Orchestrator.Store
