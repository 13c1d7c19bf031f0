import Orchestrator.Host.System
import Orchestrator.Host.Recover

/-!
# Dispatching launches

A session of a source Host. `handleHost` finishes the reconcile, reads the pending
launches, sends them, and claims; `dispatchAll` claims and sends for the requests of
owners, as soon as the store lets it. Both send over one connection, and the Host takes
the frames in their order.
-/
namespace Orchestrator.Coordinator
open Library Store Host.Worker

/-- How far `handleHost` has got. -/
inductive Handling where
  | reconciling
  /-- `FinishHostReconcile` is committed, the pending launches have not been read. -/
  | reconciled
  | serving
  deriving DecidableEq, Repr

/-- `unsent` has what each call of `dispatch` was given by the store and has not sent; the
first is the one of `handleHost`. -/
structure Dispatch where
  store : State
  handling : Handling := .reconciling
  unsent : Nat → List LaunchCommand := fun _ => []
  wire : List LaunchCommand := []
  segments : String → Delivery := fun _ => {}

namespace Dispatch

inductive Action where
  /-- Any operation of the store on behalf of others. -/
  | control (op : Op)
  | finishReconcile
  | pendingLaunches
  | claimReady (env : Env) (caller : Nat)
  | send (caller : Nat)
  | receive
  | worker (segmentId : String) (a : Host.Worker.Action)
  | recover (segmentId : String) (i : Nat) (ok : Bool)
  /-- The Host dies and is started again; the connection is lost. -/
  | restart

variable (d : DB) (hostId : String) (epoch : Nat)

/-- The commands of an operation are for its caller to send. -/
def ask (s : Dispatch) (caller : Nat) (op : Op) : Dispatch :=
  { s with
    store := d.step s.store op
    unsent := Function.update s.unsent caller (Host.issued d s.store op) }

def incident (s : Dispatch) (segmentId : String) (a : Incident) : Dispatch :=
  { s with
    segments := Function.update s.segments segmentId ((s.segments segmentId).step a) }

def step (s : Dispatch) : Action → Dispatch
  | .control op => { s with store := d.step s.store op }
  | .finishReconcile =>
    if s.handling = .reconciling ∧ (d.exec s.store (.finishHostReconcile hostId)).isOk = true then
      { s with store := d.step s.store (.finishHostReconcile hostId), handling := .reconciled }
    else s
  | .pendingLaunches =>
    if s.handling = .reconciled then
      { s.ask d 0 (.pendingLaunches hostId epoch) with handling := .serving }
    else s
  | .claimReady env caller =>
    if (caller = 0 → s.handling = .serving) ∧ s.unsent caller = [] then
      s.ask d caller (.claimReady env hostId epoch 0)
    else s
  | .send caller =>
    match s.unsent caller with
    | [] => s
    | command :: rest =>
      { s with unsent := Function.update s.unsent caller rest, wire := s.wire ++ [command] }
  | .receive =>
    match s.wire with
    | [] => s
    | command :: rest => { s with wire := rest }.incident command.segmentId .deliver
  | .worker segmentId a => s.incident segmentId (.launch a)
  | .recover segmentId i ok => s.incident segmentId (.recover i ok)
  | .restart =>
    { s with
      handling := .reconciling
      unsent := fun _ => []
      wire := []
      segments := fun id => (s.segments id).step .restart }

def run (s : Dispatch) (actions : List Action) : Dispatch :=
  Library.run (step d hostId epoch) s actions

/-- A recovery that finds nothing in the spool finds no goroutine of this process either that
may still start the worker. -/
def Recovers (s : Dispatch) : Action → Prop
  | .recover segmentId i ok => (s.segments segmentId).Recovers (.recover i ok)
  | _ => True

instance (s : Dispatch) : (a : Action) → Decidable (s.Recovers a)
  | .recover segmentId i ok =>
    inferInstanceAs (Decidable ((s.segments segmentId).Recovers (.recover i ok)))
  | .control _ | .finishReconcile | .pendingLaunches | .claimReady _ _ | .send _ | .receive
  | .worker _ _ | .restart => isTrue trivial

section
variable {d : DB} {hostId : String} {epoch : Nat} {s : Dispatch}

theorem sound_incident (h : ∀ id, (s.segments id).Sound) {segmentId : String} {a : Incident}
    (hc : (s.segments segmentId).Recovers a) (id : String) :
    ((s.incident segmentId a).segments id).Sound := by
  by_cases hid : id = segmentId
  · subst hid
    simp only [incident, Function.update_self]
    exact (h id).step hc
  · simp only [incident, Function.update_of_ne hid]
    exact h id

theorem sound_step (h : ∀ id, (s.segments id).Sound) {a : Action} (hc : s.Recovers a)
    (id : String) : ((step d hostId epoch s a).segments id).Sound := by
  cases a with
  | control op => exact h id
  | finishReconcile | pendingLaunches | claimReady env caller =>
    rw [step]
    split
    · exact h id
    · exact h id
  | send caller =>
    rw [step]
    split
    · exact h id
    · exact h id
  | receive =>
    rw [step]
    split
    · exact h id
    · exact sound_incident (a := .deliver) h trivial id
  | worker segmentId a => exact sound_incident (a := .launch a) h trivial id
  | recover segmentId i ok => exact sound_incident (a := .recover i ok) h hc id
  | restart => exact (h id).step (a := .restart) trivial

end

/-- Where every recovery finds the goroutine gone, a segment has been settled only if its
process tree is gone, or was never started and never will be. -/
theorem exited_means_gone (d : DB) (hostId : String) (epoch : Nat) (store : State)
    (actions : List Action)
    (hc : AllSteps (step d hostId epoch) Recovers { store := store } actions) (id : String) :
    ((run d hostId epoch { store := store } actions).segments id).ExitedMeansGone := by
  have hfresh : ∀ id, (({ store := store } : Dispatch).segments id).Sound := fun _ =>
    Delivery.Sound.fresh_delivery
  have hrun := run_invariant_when (I := fun s : Dispatch => ∀ id, (s.segments id).Sound) hfresh
    (fun _ _ h hc id => sound_step h hc id) hc
  exact (hrun id).settled

/-- The session of a Host that is reconciling, and an owner's request that claims the task
between `FinishHostReconcile` and `PendingLaunches`. -/
def racingDispatch : List Action :=
  ([.beginCoordinatorEpoch 1, .submitPlan (toyEnv 10) (toyPlan [toyTask "a" 2 []]),
    .registerHost toyHello 1, .beginHostReconcile "host"] : List Op).map .control ++
  [Action.finishReconcile, .claimReady (toyEnv 11) 1, .pendingLaunches, .send 0, .send 1,
    .receive, .receive]

/-- The second delivery reads the spool when the worker has been prepared. -/
theorem late_recovery_settles_nothing :
    ((run toyDB "host" 1 { store := State.fresh {} }
      (racingDispatch ++ List.replicate 13 (Action.worker "segment-11" (.go true)) ++
        List.replicate 6 (Action.recover "segment-11" 0 true))).segments
          "segment-11").ExitedMeansGone :=
  exited_means_gone toyDB "host" 1 (State.fresh {}) _ (by decide +kernel) "segment-11"

/-- The grant arrives twice. The second delivery finds nothing in the spool and settles the
segment, then the first starts the worker. -/
theorem settled_worker_starts : ∃ actions id,
    ¬ ((run toyDB "host" 1 { store := State.fresh {} } actions).segments id).ExitedMeansGone := by
  refine ⟨racingDispatch ++ List.replicate 6 (Action.recover "segment-11" 0 true) ++
    List.replicate 24 (Action.worker "segment-11" (.go true)), "segment-11", ?_⟩
  decide +kernel

end Dispatch
end Orchestrator.Coordinator
