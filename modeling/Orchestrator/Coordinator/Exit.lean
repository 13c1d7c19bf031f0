import Orchestrator.Invariants.Steps
import Orchestrator.Store.Queries

/-!
# The end of a coordinator

`monitorIdle` ends a coordinator that has had nothing to do for a while, a signal one that may have.
Connections are counted under the lock under which the monitor looks at the store, and none is
counted once it has decided.
-/
namespace Orchestrator.Coordinator
open Library Store

/-- Where `Serve` stands, then `Shutdown` and `Close`. -/
inductive Main where
  | accepting
  /-- `Accept` has returned a connection, and the lock is not taken yet. -/
  | accepted (c : Nat)
  | listing
  | stopping (tasks : List ActiveTask)
  | waiting
  | closing
  | closed
  deriving DecidableEq, Repr

structure Server where
  store : State
  main : Main := .accepting
  /-- The connections whose handlers run. -/
  serving : List Nat := []
  inFlight : Nat := 0
  idleExit : Bool := false
  since : Option Int := none
  monitoring : Bool := true
  listening : Bool := true
  cancelled : Bool := false

namespace Server

/-- `fails` says that a query of the store fails. -/
inductive Action where
  | accept (c : Nat)
  | serve
  | request (c : Nat) (op : Op)
  | leave (c : Nat)
  /-- A round of `monitorIdle`. -/
  | tick (now : Int) (fails : Bool)
  | cancel
  | stopListening
  | stopMonitoring
  | acceptFails
  | list (fails : Bool)
  | stop (env : Env)
  | poll (timedOut fails : Bool)
  | close

/-- A round of `monitorIdle`, under the lock. -/
def tick (timeout : Int) (s : Server) (now : Int) (fails : Bool) : Server :=
  if s.inFlight = 0 ∧ fails = false ∧ s.store.completelyIdle = true then
    match s.since with
    | none => { s with since := some now }
    | some since =>
      if timeout ≤ now - since then
        { s with idleExit := true, listening := false, monitoring := false }
      else s
  else { s with since := none }

/-- What `Serve` does with a connection, under the lock. -/
def serve (s : Server) (c : Nat) : Server :=
  if s.idleExit then { s with main := .accepting }
  else { s with main := .accepting, serving := c :: s.serving, inFlight := s.inFlight + 1 }

def step (d : DB) (timeout : Int) (s : Server) : Action → Server
  | .accept c =>
    if s.main = .accepting ∧ s.listening = true ∧ c ∉ s.serving then
      { s with main := .accepted c }
    else s
  | .serve =>
    match s.main with
    | .accepted c => s.serve c
    | _ => s
  | .request c op =>
    if c ∈ s.serving ∧ s.main ≠ .closed then { s with store := d.step s.store op } else s
  | .leave c =>
    if c ∈ s.serving then { s with serving := s.serving.erase c, inFlight := s.inFlight - 1 } else s
  | .tick now fails => if s.monitoring = true then s.tick timeout now fails else s
  | .cancel => { s with cancelled := true }
  | .stopListening => if s.cancelled = true then { s with listening := false } else s
  | .stopMonitoring => if s.cancelled = true then { s with monitoring := false } else s
  | .acceptFails => if s.main = .accepting then { s with main := .listing } else s
  | .list fails =>
    if s.main = .listing then
      { s with main := if fails then .closing else .stopping (activeTasks s.store) }
    else s
  | .stop env =>
    match s.main with
    | .stopping [] => { s with main := .waiting }
    | .stopping (t :: ts) => { s with
        main := .stopping ts
        store := d.step s.store (.requestStop env t.taskId t.workRevision "coordinator_exit") }
    | _ => s
  | .poll timedOut fails =>
    if s.main = .waiting then
      if fails = true ∨ activeTasks s.store = [] then { s with main := .closing }
      else if timedOut then
        { s with main := .closing, store := d.step s.store .markStoppingUnknown }
      else s
    else s
  | .close => if s.main = .closing then { s with main := .closed, listening := false } else s

def start (store : State) : Server where
  store := store

def run (d : DB) (timeout : Int) (s : Server) (actions : List Action) : Server :=
  Library.run (step d timeout) s actions

section Idle
variable {d : DB} {s : State}

/-- In an idle store no segment is active and no task can be cancelled. -/
theorem idle_parts (h : s.completelyIdle = true) :
    (∀ g ∈ s.segments, g.active = false) ∧ ∀ t ∈ s.tasks, t.status.outstanding = false := by
  simp only [State.completelyIdle, decide_eq_true_eq] at h
  exact ⟨Table.count_eq_zero.mp (by omega), Table.count_eq_zero.mp (by omega)⟩

theorem activeTasks_idle (h : s.completelyIdle = true) : activeTasks s = [] := by
  have hnone : s.tasks.rows.filter (fun t => s.segments.rows.any
      fun g => g.taskId = t.id && g.active) = [] := by
    refine List.filter_eq_nil_iff.mpr fun t _ hany => ?_
    obtain ⟨g, hg, ha⟩ := List.any_eq_true.mp hany
    rw [(idle_parts h).1 g hg, Bool.and_false] at ha
    cases ha
  rw [activeTasks, hnone, List.map_nil, List.mergeSort_nil]

theorem outstanding_of_cancellable {st : TaskStatus} (h : st.cancellable = true) :
    st.outstanding = true := by
  cases st <;> first | rfl | cases h

/-- A stop finds nothing to do. -/
theorem requestStop_idle (h : s.completelyIdle = true) (env : Env) (taskId : String)
    (workRevision : Int) (reason : String) :
    d.step s (.requestStop env taskId workRevision reason) = s := by
  refine step_induct (P := fun s' => s' = s) rfl fun s' hx => ?_
  obtain ⟨r, hx⟩ := committed_ok.mp hx
  obtain ⟨t, ht, -, -, -, ⟨hc, -⟩ | ⟨-, g, hg, -⟩⟩ := requestStop_cases hx
  · have hb := (idle_parts h).2 t ht
    rw [outstanding_of_cancellable hc] at hb
    cases hb
  · obtain ⟨hgm, -, ha⟩ := mem_of_activeSegment hg
    rw [(idle_parts h).1 g hgm] at ha
    cases ha

end Idle

/-- What the decision of the monitor rests on. -/
structure Settled (s : Server) : Prop where
  counted : s.inFlight = s.serving.length
  exited : s.idleExit = true → s.serving = [] ∧ s.store.completelyIdle = true

section Runs
variable {d : DB} {timeout : Int} {s : Server} {store : State}

theorem settled_start (store : State) : (start store).Settled :=
  ⟨rfl, fun h => by cases h⟩

theorem Settled.tick (h : s.Settled) (now : Int) (fails : Bool) :
    (s.tick timeout now fails).Settled := by
  unfold Server.tick
  split
  · rename_i hidle
    split
    · exact ⟨h.counted, h.exited⟩
    · split
      · refine ⟨h.counted, fun _ => ⟨?_, hidle.2.2⟩⟩
        exact List.length_eq_zero_iff.mp (h.counted.symm.trans hidle.1)
      · exact h
  · exact ⟨h.counted, h.exited⟩

/-- While the coordinator has not decided to end, handlers come and go. -/
theorem Settled.step (h : s.Settled) (a : Action) : (step d timeout s a).Settled := by
  obtain ⟨hcount, hexit⟩ := h
  cases a with
  | tick now fails =>
    change (if s.monitoring = true then s.tick timeout now fails else s).Settled
    split
    · exact Settled.tick ⟨hcount, hexit⟩ now fails
    · exact ⟨hcount, hexit⟩
  | serve =>
    simp only [Server.step]
    split
    · unfold Server.serve
      split
      · exact ⟨hcount, hexit⟩
      · rename_i hno
        exact ⟨congrArg Nat.succ hcount, fun h => absurd h hno⟩
    · exact ⟨hcount, hexit⟩
  | request c op =>
    simp only [Server.step]
    split
    · rename_i hc
      refine ⟨hcount, fun h => ?_⟩
      have hnil := (hexit h).1
      rw [hnil] at hc
      cases hc.1
    · exact ⟨hcount, hexit⟩
  | leave c =>
    simp only [Server.step]
    split
    · rename_i hc
      refine ⟨by rw [List.length_erase_of_mem hc, hcount], fun h => ?_⟩
      have hnil := (hexit h).1
      rw [hnil] at hc
      cases hc
    · exact ⟨hcount, hexit⟩
  | stop env =>
    simp only [Server.step]
    split
    · exact ⟨hcount, hexit⟩
    · refine ⟨hcount, fun h => ⟨(hexit h).1, ?_⟩⟩
      rw [requestStop_idle (hexit h).2]
      exact (hexit h).2
    · exact ⟨hcount, hexit⟩
  | poll timedOut fails =>
    simp only [Server.step]
    split
    · split
      · exact ⟨hcount, hexit⟩
      · rename_i hact
        split
        · exact ⟨hcount, fun h => absurd (.inr (activeTasks_idle (hexit h).2)) hact⟩
        · exact ⟨hcount, hexit⟩
    · exact ⟨hcount, hexit⟩
  | cancel => exact ⟨hcount, hexit⟩
  | accept | stopListening | stopMonitoring | acceptFails | list | close =>
    simp only [Server.step]
    split <;> exact ⟨hcount, hexit⟩

/-- Once it has decided to end, nothing changes any more. -/
theorem Settled.final (h : s.Settled) (hexit : s.idleExit = true) (d : DB) (timeout : Int)
    (a : Action) : (Server.step d timeout s a).idleExit = true ∧
      (Server.step d timeout s a).store = s.store := by
  obtain ⟨hnil, hidle⟩ := h.exited hexit
  cases a with
  | tick now fails =>
    simp only [Server.step, Server.tick]
    split
    · split
      · split
        · exact ⟨hexit, rfl⟩
        · split <;> exact ⟨by simp [hexit], rfl⟩
      · exact ⟨hexit, rfl⟩
    · exact ⟨hexit, rfl⟩
  | serve =>
    simp only [Server.step]
    split
    · simp only [Server.serve, if_pos hexit]
      exact ⟨hexit, trivial⟩
    · exact ⟨hexit, rfl⟩
  | request c op => simp [Server.step, hnil, hexit]
  | leave c => simp [Server.step, hnil, hexit]
  | stop env =>
    simp only [Server.step]
    split
    · exact ⟨hexit, rfl⟩
    · exact ⟨hexit, requestStop_idle hidle ..⟩
    · exact ⟨hexit, rfl⟩
  | poll timedOut fails =>
    simp only [Server.step, activeTasks_idle hidle, or_true, if_true]
    split <;> exact ⟨hexit, rfl⟩
  | cancel => exact ⟨hexit, rfl⟩
  | accept | stopListening | stopMonitoring | acceptFails | list | close =>
    simp only [Server.step]
    split <;> exact ⟨hexit, rfl⟩

theorem settled_run (actions : List Action) : (run d timeout (start store) actions).Settled :=
  run_invariant (settled_start store) fun _ a h => h.step a

/-- A coordinator ends by itself with nobody served and nothing to do, and whatever happens then,
signals and late connections included, the store stays as it is. -/
theorem idle_exit_final {before : List Action}
    (hexit : (run d timeout (start store) before).idleExit = true) (after : List Action) :
    (run d timeout (start store) before).serving = [] ∧
      (run d timeout (start store) before).store.completelyIdle = true ∧
      (run d timeout (start store) (before ++ after)).store =
        (run d timeout (start store) before).store := by
  have hs : (run d timeout (start store) before).Settled := settled_run before
  obtain ⟨hnil, hidle⟩ := hs.exited hexit
  refine ⟨hnil, hidle, ?_⟩
  rw [run, run_append, ← run]
  let I : Server → Prop := fun s =>
    s.Settled ∧ s.idleExit = true ∧ s.store = (run d timeout (start store) before).store
  have hstep : ∀ s a, I s → I (Server.step d timeout s a) := by
    intro s a h
    obtain ⟨h₁, h₂⟩ := h.1.final h.2.1 d timeout a
    exact ⟨h.1.step a, h₁, h₂.trans h.2.2⟩
  have hrun : I (run d timeout (run d timeout (start store) before) after) :=
    run_invariant ⟨hs, hexit, rfl⟩ hstep
  exact hrun.2.2

/-! ## How long it waits -/

/-- Every round of the monitor from the one at `t` on has found nobody served and nothing to do. -/
def QuietSince (d : DB) (timeout : Int) (store : State) (actions : List Action) (t : Int) : Prop :=
  ∃ first fails rest, actions = first ++ Action.tick t fails :: rest ∧
    ∀ before now fails, first <+: before → before ++ [Action.tick now fails] <+: actions →
      (run d timeout (start store) before).inFlight = 0 ∧
        (run d timeout (start store) before).store.completelyIdle = true

variable {actions : List Action} {a : Action}

theorem QuietSince.concat {t : Int} (h : QuietSince d timeout store actions t)
    (ha : ∀ now fails, a = .tick now fails → (run d timeout (start store) actions).inFlight = 0 ∧
      (run d timeout (start store) actions).store.completelyIdle = true) :
    QuietSince d timeout store (actions ++ [a]) t := by
  obtain ⟨first, fails, rest, heq, hquiet⟩ := h
  refine ⟨first, fails, rest ++ [a], by simp [heq], fun before now fails hfirst hpre => ?_⟩
  rcases List.prefix_concat_iff.mp hpre with hlast | hpre
  · obtain ⟨rfl, hsingle⟩ := List.append_inj' hlast rfl
    exact ha now fails (List.singleton_inj.mp hsingle).symm
  · exact hquiet before now fails hfirst hpre

theorem quietSince_first {now : Int} {fails : Bool}
    (hidle : (run d timeout (start store) actions).inFlight = 0 ∧
      (run d timeout (start store) actions).store.completelyIdle = true) :
    QuietSince d timeout store (actions ++ [Action.tick now fails]) now := by
  refine ⟨actions, fails, [], rfl, fun before now' fails' hfirst hpre => ?_⟩
  rcases List.prefix_concat_iff.mp hpre with hlast | hpre
  · obtain ⟨rfl, -⟩ := List.append_inj' hlast rfl
    exact hidle
  · have hlen := (hpre.trans hfirst).length_le
    simp at hlen

/-- What a round of the monitor finds, and what it leaves of the other fields. -/
theorem tick_cases (timeout : Int) (s : Server) (now : Int) (fails : Bool) :
    (s.tick timeout now fails).since = none ∨
      (s.inFlight = 0 ∧ s.store.completelyIdle = true) ∧
        (((s.tick timeout now fails).since = some now ∧ s.since = none) ∨
          (s.tick timeout now fails).since = s.since) := by
  unfold Server.tick
  split
  · rename_i hidle
    refine .inr ⟨⟨hidle.1, hidle.2.2⟩, ?_⟩
    split
    · rename_i hnone
      exact .inl ⟨rfl, hnone⟩
    · split <;> exact .inr rfl
  · exact .inl rfl

theorem step_since (d : DB) (timeout : Int) (s : Server) (hno : ∀ now fails, a ≠ .tick now fails) :
    (Server.step d timeout s a).since = s.since ∧
      ((Server.step d timeout s a).monitoring = true → s.monitoring = true) ∧
      (Server.step d timeout s a).idleExit = s.idleExit := by
  cases a with
  | tick now fails => exact absurd rfl (hno now fails)
  | cancel => exact ⟨rfl, id, rfl⟩
  | stopMonitoring =>
    simp only [Server.step]
    split
    · exact ⟨rfl, fun h => (Bool.false_ne_true h).elim, rfl⟩
    · exact ⟨rfl, id, rfl⟩
  | serve =>
    simp only [Server.step, Server.serve]
    split
    · split <;> exact ⟨rfl, id, rfl⟩
    · exact ⟨rfl, id, rfl⟩
  | stop env =>
    simp only [Server.step]
    split <;> exact ⟨rfl, id, rfl⟩
  | poll timedOut fails =>
    simp only [Server.step]
    split
    · split
      · exact ⟨rfl, id, rfl⟩
      · split <;> exact ⟨rfl, id, rfl⟩
    · exact ⟨rfl, id, rfl⟩
  | accept | request | leave | stopListening | acceptFails | list | close =>
    simp only [Server.step]
    split <;> exact ⟨rfl, id, rfl⟩

/-- The clock of the monitor runs from a round since which all was quiet. -/
theorem quietSince_run (actions : List Action) :
    (run d timeout (start store) actions).monitoring = true →
      ∀ t, (run d timeout (start store) actions).since = some t →
        QuietSince d timeout store actions t := by
  induction actions using List.reverseRecOn with
  | nil => intro _ t h; cases h
  | append_singleton actions a ih =>
    rw [run, run_concat, ← run]
    intro hmon t hsince
    by_cases htick : ∃ now fails, a = .tick now fails
    · obtain ⟨now, fails, rfl⟩ := htick
      simp only [Server.step] at hmon hsince
      split at hsince
      · rename_i hm
        rcases tick_cases timeout (run d timeout (start store) actions) now fails with
          hnone | ⟨hidle, ⟨hnow, -⟩ | hsame⟩
        · rw [hnone] at hsince
          cases hsince
        · obtain rfl : now = t := Option.some.inj (hnow.symm.trans hsince)
          exact quietSince_first hidle
        · exact (ih hm t (hsame.symm.trans hsince)).concat fun _ _ _ => hidle
      · rename_i hm
        rw [if_neg hm] at hmon
        exact absurd hmon hm
    · have hno : ∀ now fails, a ≠ .tick now fails := fun now fails h => htick ⟨now, fails, h⟩
      obtain ⟨hs, hm, -⟩ := step_since d timeout (run d timeout (start store) actions) hno
      have ht : (run d timeout (start store) actions).since = some t := hs.symm.trans hsince
      exact (ih (hm hmon) t ht).concat fun now fails h => absurd h (hno now fails)

/-- The decision to end is a round of the monitor, and all its rounds of the last `timeout` have
found nobody served and nothing to do. -/
theorem idle_exit_waits (hbefore : (run d timeout (start store) actions).idleExit = false)
    (hafter : (run d timeout (start store) (actions ++ [a])).idleExit = true) :
    ∃ now fails since, a = .tick now fails ∧ timeout ≤ now - since ∧
      QuietSince d timeout store (actions ++ [a]) since := by
  rw [run, run_concat, ← run] at hafter
  by_cases htick : ∃ now fails, a = .tick now fails
  · obtain ⟨now, fails, rfl⟩ := htick
    simp only [Server.step, Server.tick] at hafter
    split at hafter
    · rename_i hm
      split at hafter
      · rename_i hidle
        split at hafter
        · rw [hbefore] at hafter
          cases hafter
        · rename_i since hsince
          split at hafter
          · rename_i htime
            exact ⟨now, fails, since, rfl, htime, (quietSince_run actions hm since hsince).concat
              fun _ _ _ => ⟨hidle.1, hidle.2.2⟩⟩
          · rw [hbefore] at hafter
            cases hafter
      · exact absurd hafter (by simp [hbefore])
    · rw [hbefore] at hafter
      cases hafter
  · have hno : ∀ now fails, a ≠ .tick now fails := fun now fails h => htick ⟨now, fails, h⟩
    rw [(step_since d timeout _ hno).2.2, hbefore] at hafter
    cases hafter

end Runs

/-- A connection is accepted while the monitor decides. -/
def lateActions : List Action := [.tick 0 false, .accept 1, .tick 30 false]

/-- It is closed unread, so the request that it carries is not made. -/
theorem late_connection_closed :
    (run toyDB 30 (start (State.fresh {}))
      (lateActions ++ [Action.serve, .request 1 (.beginCoordinatorEpoch 1)])).store =
        (run toyDB 30 (start (State.fresh {})) lateActions).store :=
  (idle_exit_final (by decide +kernel) [.serve, .request 1 (.beginCoordinatorEpoch 1)]).2.2

/-- Two rounds are enough if `timeout` lies between them. -/
theorem second_round_decides : ∃ now fails since, Action.tick 30 false = .tick now fails ∧
    30 ≤ now - since ∧
      QuietSince toyDB 30 (State.fresh {}) ([Action.tick 0 false] ++ [Action.tick 30 false])
        since :=
  idle_exit_waits (by decide +kernel) (by decide +kernel)

end Server
end Orchestrator.Coordinator
