import Orchestrator.Store.Delivery
import Mathlib.Data.String.Basic

/-!
# Stopping tasks and retiring Hosts
-/
namespace Orchestrator.Store
open Library

structure StopDispatch where
  hostId : String := ""
  command : StopCommand := {}
  deriving DecidableEq, Repr

def stopCommand (r : StopRow) : StopCommand where
  commandId := r.commandId
  segmentId := r.segmentId
  reason := r.reason
  deadlineUnixMs := r.deadlineUnixMs

/-- A task that has not started can be cancelled outright. -/
def TaskStatus.cancellable : TaskStatus → Bool
  | .queued | .ready | .resumeQueued => true
  | _ => false

/-- `ORDER BY created_at DESC LIMIT 1`. -/
def Core.activeSegment (c : Core) (taskId : String) : Option Segment :=
  (c.segments.rows.filter (fun g => g.taskId = taskId && g.active)).argmax Segment.createdAt

def Core.cancel (c : Core) (taskId : String) : Core :=
  blockFailedDependencies (c.setTaskStatus taskId .cancelled)

def Core.stopSegment (c : Core) (segmentId taskId : String) : Core :=
  (c.updateSegment segmentId (fun _ => true)
    (fun g => { g with status := .stopping, outcome := .stopped })
    (Table.keeps Segment.id)).setTaskStatus taskId .stopping

def requestStop (env : Env) (s : State) (taskId : String) (workRevision : Int) (reason : String) :
    Except CodeError (State × StopDispatch) := do
  require (taskId ≠ "" ∧ 1 ≤ workRevision ∧ reason ≠ "") .invalidStop
  let t ← expect (s.tasks.find? taskId) .notFound
  require (t.workRevision = workRevision) .conflict
  if t.status.cancellable then
    .ok ({ s with toCore := s.toCore.cancel taskId }, {})
  else do
    let g ← expect (s.activeSegment taskId) .conflict
    match s.stops.find? g.id with
    | some stop => .ok (s, ⟨g.hostId, stopCommand stop⟩)
    | none => do
      let stops ← expect (s.insertStop env g reason) .sql
      .ok ({ s with toCore := s.toCore.stopSegment g.id taskId, stops := stops },
        ⟨g.hostId, ⟨env.newId "stop", g.id, reason, env.now.stopDeadline⟩⟩)

/-- Some segment of the attempt is in status `unknown`. -/
def Core.attemptUnknown (c : Core) (attemptId : String) : Bool :=
  c.segments.rows.any (fun g => g.attemptId = attemptId && g.status = .unknown)

def Core.taskUnknown (c : Core) (taskId : String) : Bool :=
  c.segments.rows.any (fun g => g.taskId = taskId && g.status = .unknown)

def Core.markStoppingUnknown (c : Core) : Core :=
  let c := c.updateSegments (fun g => g.status = .stopping) (fun g => { g with status := .unknown })
    (Table.keeps Segment.id)
  { c with
    attempts := c.attempts.update (fun a => c.attemptUnknown a.id)
      (fun a => { a with status := .unknown }) (Table.keeps Attempt.id)
    tasks := c.tasks.update (fun t => c.taskUnknown t.id) (·.withStatus .unknown)
      (Table.keeps Task.id) }

def markStoppingUnknown (s : State) : Except CodeError (State × Unit) :=
  .ok ({ s with
    toCore := s.toCore.markStoppingUnknown
    stops := s.stops.update (fun r => r.status = .pending || r.status = .accepted)
      (fun r => { r with status := .unknown }) (Table.keeps StopRow.segmentId) }, ())

def retireHost (s : State) (hostId : String) : Except CodeError (State × Unit) :=
  .ok ({ s with
    hosts := s.hosts.update (fun h => h.id = hostId && h.status = .ready)
      (fun h => { h with status := .released }) (Table.keeps RuntimeHost.id)
    hostLaunches := setLaunchStatus s.hostLaunches hostId .released }, ())

/-! ## RebindOwner -/

structure RebindOwnerSpec where
  runId : String
  originContextId : String
  originPid : Int
  originBirth : String
  hostGeneration : String
  attachmentProofSha256 : String
  deriving DecidableEq, Repr

/-- The launches of a run's tasks. -/
def Core.ownsLaunch (c : Core) (runId launchId : String) : Bool :=
  c.tasks.rows.any (fun t => t.runId = runId && t.hostLaunchId = launchId)

def State.runActive (s : State) (runId : String) : Nat :=
  s.segments.count (fun g => g.active && (s.tasks.find? g.taskId).any (fun t => t.runId = runId))

def State.runGeneration (s : State) (runId : String) : Option String :=
  (s.tasks.rows.filter (fun t => t.runId = runId)).findSome?
    (fun t => (s.hostLaunches.find? t.hostLaunchId).map HostLaunch.hostGeneration)

def DB.rebindOwner (d : DB) (s : State) (spec : RebindOwnerSpec) :
    Except CodeError (State × Unit) := do
  require (spec.runId ≠ "" ∧ spec.originContextId ≠ "" ∧ 0 < spec.originPid ∧
    spec.originBirth ≠ "" ∧ spec.hostGeneration ≠ "" ∧
    validDigest spec.attachmentProofSha256 = true) .invalidOwnerRebind
  let run ← expect (s.runs.find? spec.runId) .conflict
  let oldGeneration ← expect (s.runGeneration spec.runId) .conflict
  require (run.originContextId = spec.originContextId) .conflict
  match s.ownerRebinds.find? (spec.runId, spec.hostGeneration) with
  | some rebind => do
    require (rebind.attachmentProofSha256 = d.toLower spec.attachmentProofSha256) .conflict
    .ok (s, ())
  | none => do
    require (oldGeneration ≠ spec.hostGeneration) .conflict
    require (s.runActive spec.runId = 0) .conflict
    let rebinds ← expect (s.ownerRebinds.insert? ⟨spec.runId, spec.hostGeneration, spec.originPid,
      spec.originBirth, d.toLower spec.attachmentProofSha256⟩) .conflict
    .ok ({ s with
      ownerRebinds := rebinds
      runs := s.runs.update (fun r => r.id = spec.runId)
        (fun r => { r with originPid := spec.originPid, originBirth := spec.originBirth })
        (Table.keeps Run.id)
      hostLaunches := s.hostLaunches.update (fun l => s.ownsLaunch spec.runId l.id)
        (fun l => { l with hostGeneration := spec.hostGeneration, status := .offline })
        (Table.keeps HostLaunch.id)
      hosts := s.hosts.update (fun h => s.ownsLaunch spec.runId h.launchId)
        (fun h => { h with hostGeneration := spec.hostGeneration, status := .offline })
        (Table.keeps RuntimeHost.id) }, ())

end Orchestrator.Store
