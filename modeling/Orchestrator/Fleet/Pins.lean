import Orchestrator.Dispatch.Regrants
import Orchestrator.Invariants.Statuses
import Orchestrator.Store.Queries

/-!
# Released pins

A task whose pin was released is gone: its status is final, or it failed and its
group has no attempt left. No operation takes a task out of that condition. Of
the guards of the query this is the only one that lasts: late events and reports
may still be delivered for such a task, and its group may still grow.
-/
namespace Orchestrator.Store
open Library

/-- The task will not be launched again. -/
def Core.Gone (c : Core) (t : Task) : Prop :=
  t.status.final = true ∨ t.status = .failed ∧ c.attemptsExhausted t.budgetGroupId t.maxAttempts

section Gone
variable {d : DB} {op : Op} {x : Option String} {c c' c₁ : Core} {st : TaskStatus} {t : Task}

theorem Core.Gone.idle (h : c.Gone t) : t.status.busy = false := by
  obtain hf | ⟨hf, -⟩ := h
  · revert hf
    cases t.status <;> simp [TaskStatus.final, TaskStatus.busy]
  · rw [hf]
    rfl

theorem Core.Gone.unclaimable (h : c.Gone t) : t.status.claimable = false := by
  obtain hf | ⟨hf, -⟩ := h
  · revert hf
    cases t.status <;> simp [TaskStatus.final, TaskStatus.claimable]
  · rw [hf]
    rfl

theorem Core.Gone.unblockable (h : c.Gone t) : t.status.blockable = false := by
  obtain hf | ⟨hf, -⟩ := h
  · revert hf
    cases t.status <;> simp [TaskStatus.final, TaskStatus.blockable]
  · rw [hf]
    rfl

/-- Attempts of a group are never taken back. -/
theorem Core.Gone.grows (h : c.Gone t) (hg : Grows c c') : c'.Gone t := by
  refine h.imp_right fun ⟨hf, hx⟩ => ⟨hf, ?_⟩
  have := groupAttempts_grows hg t.budgetGroupId
  unfold Core.attemptsExhausted at hx ⊢
  omega

/-- Only a retry leads out of these statuses, and it asks for an attempt. -/
theorem Core.Gone.turn (h : c.Gone t) (hturn : Turn st c c₁) (ht : t ∈ c.tasks) :
    t ∈ c₁.tasks := by
  obtain ⟨u, hu, hst, rfl | ⟨hus, harc⟩⟩ := hturn.task ht
  · exact hu
  · have hidle := h.idle
    have hunclaimable := h.unclaimable
    obtain hf | ⟨hf, hx⟩ := h
    · generalize t.status = before at harc hf hidle hunclaimable
      cases harc with
      | claim hs => rw [hs] at hunclaimable; cases hunclaimable
      | stop hs | lose hs | exit hs => rw [hs] at hidle; cases hidle
      | cancel hs => cases before <;> first | cases hf; done | cases hs
      | resume hs => obtain rfl | rfl := hs <;> cases hf
      | accept | reject | retry => cases hf
    · have hready : st = .ready := by
        rw [hf] at harc hidle hunclaimable
        cases harc with
        | retry => rfl
        | claim hs | stop hs | lose hs | exit hs | cancel hs => cases hs
        | resume hs => obtain hs | hs := hs <;> cases hs
      obtain hold | hleft := hturn.retried hready u hu
      · obtain rfl : u = t := Table.eq_of_key hold ht (Task.static_id hst)
        exact hu
      · rw [Task.static_budgetGroupId hst, Task.static_maxAttempts hst] at hleft
        exact absurd hx hleft

theorem Core.Gone.close (h : c.Gone t) (hclose : Close st c c₁ x c') (ht : t ∈ c₁.tasks) :
    t ∈ c'.tasks := by
  cases hclose with
  | leave => exact ht
  | release =>
    obtain ⟨sequence, hrows, -⟩ := (releaseReady_released c₁).rows
    have hq : ¬ c₁.releasable t = true := by
      intro hq
      have := h.unblockable
      rw [releasable_queued hq] at this
      cases this
    refine Table.mem_def.mpr (hrows ▸ List.mem_map.mpr ⟨t, ht, ?_⟩)
    rw [if_neg hq]
  | block =>
    refine mem_blockFailedDependencies.mpr ⟨t, ht, afterBlocking_spared fun hd => ?_⟩
    have := h.unblockable
    rw [hd.blockable] at this
    cases this

/-- A task that is gone keeps its row. -/
theorem Core.Gone.step (h : c.Gone t) (hs : Slots d.toPlatform c) (hstep : Step d op x c c')
    (ht : t ∈ c.tasks) : t ∈ c'.tasks ∧ c'.Gone t := by
  refine ⟨?_, h.grows hstep.grows⟩
  cases hstep with
  | submit hsub =>
    obtain ⟨p, launchId, stamp, -, -, hi⟩ := hsub.inserted
    obtain ⟨new, hr, -⟩ := hi.rows
    exact Table.mem_def.mpr (hr ▸ List.mem_append_left new ht)
  | move hm =>
    obtain ⟨st, c₁, hturn, hclose, -⟩ := hm.split hs
    exact h.close hclose (h.turn hturn ht)

end Gone

section Pins
variable {d : DB} {limits : ConcurrencyLimits} {s s' : State} {t : Task}

theorem gone_run (hr : d.Reachable limits s) (ht : t ∈ s.tasks) (h : s.toCore.Gone t)
    (ops : List Op) : t ∈ (d.run s ops).tasks ∧ (d.run s ops).toCore.Gone t := by
  have : d.Reachable limits (d.run s ops) ∧ t ∈ (d.run s ops).tasks ∧
      (d.run s ops).toCore.Gone t := by
    refine run_invariant (I := fun s : State => d.Reachable limits s ∧ t ∈ s.tasks ∧
      s.toCore.Gone t) ⟨hr, ht, h⟩ fun s op ⟨hr, ht, h⟩ => ⟨reachable_step op hr, ?_⟩
    refine step_induct (P := fun s : State => t ∈ s.tasks ∧ s.toCore.Gone t) ⟨ht, h⟩ fun s' hx => ?_
    exact h.step (slots_of_reachable hr) (exec_effect (bound_of_reachable hr) hx).step ht
  exact this.2

theorem mem_releasableTasks {r : ReleasableTask} (h : r ∈ releasableTasks s) :
    ∃ t ∈ s.tasks, t.id = r.taskId ∧ s.toCore.Gone t := by
  unfold releasableTasks at h
  obtain ⟨t, ht, hr⟩ := List.mem_filterMap.mp (List.mem_mergeSort.mp h)
  obtain ⟨hm, hsel⟩ := List.mem_filter.mp ht
  obtain ⟨l, -, rfl⟩ := Option.map_eq_some_iff.mp hr
  refine ⟨t, hm, rfl, ?_⟩
  simp only [State.releasableTask, Bool.and_eq_true, Bool.or_eq_true, decide_eq_true_eq] at hsel
  obtain ⟨⟨⟨⟨hgone, -⟩, -⟩, -⟩, -⟩ := hsel
  refine hgone.imp_right fun ⟨hf, hx⟩ => ⟨hf, ?_⟩
  unfold Core.attemptsExhausted
  omega

theorem claimReady_unreleased {env : Env} {hostId : String} {epoch : Nat} {slots : Int}
    {cmd : LaunchCommand} (h : d.claimReady env s hostId epoch slots = .ok (s', cmd))
    (ht : t ∈ s.tasks) (hgone : s.toCore.Gone t) : cmd.taskId ≠ t.id := by
  intro hid
  obtain ⟨u, place, hclaimed⟩ := claimReady_iff.mp h
  obtain ⟨_, -, -, -, hsel⟩ := hclaimed.host
  obtain ⟨-, -, -, -, -, -, -, rfl⟩ := launch_cases hclaimed.launched
  obtain ⟨hu, -, hc, -⟩ := selectReady_spec hsel
  obtain rfl : u = t := Table.eq_of_key hu ht hid
  rw [hgone.unclaimable] at hc
  cases hc

theorem pendingLaunches_unreleased (hs : Slots d.toPlatform s.toCore) {hostId : String}
    {epoch : Nat} {commands : List LaunchCommand}
    (h : pendingLaunches s hostId epoch = .ok (s', commands)) (ht : t ∈ s.tasks)
    (hgone : s.toCore.Gone t) : ∀ cmd ∈ commands, cmd.taskId ≠ t.id := by
  intro cmd hcmd hid
  obtain ⟨g, hg, hst, -, sent, hsent, rfl⟩ := pendingLaunches_sends h hcmd
  simp only [State.pendingCommand, bind_ok_iff, expect_ok, Except.ok.injEq] at hsent
  obtain ⟨u, hu, _, -, rfl⟩ := hsent
  obtain ⟨-, huid⟩ := Table.find?_eq_some.mp hu
  have hactive : g.active = true := by
    rw [Segment.active_iff, hst]
    nofun
  exact hs.idle ht hgone.idle g hg hactive (huid.symm.trans hid)

end Pins

/-- Once a task was releasable, no launch of it is ever claimed or sent again. -/
theorem released_never_launched {d : DB} {limits : ConcurrencyLimits} {before after : List Op}
    {r : ReleasableTask} (h : r ∈ releasableTasks (d.run (State.fresh limits) before)) :
    (∀ env hostId epoch slots s' cmd, d.claimReady env
      (d.run (State.fresh limits) (before ++ after)) hostId epoch slots = .ok (s', cmd) →
        cmd.taskId ≠ r.taskId) ∧
    ∀ hostId epoch s' commands, pendingLaunches (d.run (State.fresh limits) (before ++ after))
      hostId epoch = .ok (s', commands) → ∀ cmd ∈ commands, cmd.taskId ≠ r.taskId := by
  have hr : d.Reachable limits (d.run (State.fresh limits) before) := ⟨before, rfl⟩
  obtain ⟨t, ht, hid, hgone⟩ := mem_releasableTasks h
  obtain ⟨ht', hgone'⟩ := gone_run hr ht hgone after
  have hrun : d.run (State.fresh limits) (before ++ after) =
      d.run (d.run (State.fresh limits) before) after := run_append
  rw [hrun, ← hid]
  refine ⟨fun env hostId epoch slots s' cmd hx => claimReady_unreleased hx ht' hgone',
    fun hostId epoch s' commands hx => ?_⟩
  have hr' : d.Reachable limits (d.run (State.fresh limits) (before ++ after)) := ⟨_, rfl⟩
  exact pendingLaunches_unreleased (slots_of_reachable (hrun ▸ hr')) hx ht' hgone'

/-- Two tasks, one of them cancelled before its first launch. -/
def releaseOps : List Op :=
  toyStart [toyTask "a" 1 [], toyTask "b" 1 []] ++ [Op.requestStop (toyEnv 11) "a" 1 "user_cancel"]

theorem cancelled_never_launched :
    (∀ env hostId epoch slots s' cmd, toyDB.claimReady env
      (toyDB.run (State.fresh {}) (releaseOps ++ [toyClaim 12])) hostId epoch slots =
        .ok (s', cmd) → cmd.taskId ≠ "a") ∧
    ∀ hostId epoch s' commands, pendingLaunches
      (toyDB.run (State.fresh {}) (releaseOps ++ [toyClaim 12])) hostId epoch =
        .ok (s', commands) → ∀ cmd ∈ commands, cmd.taskId ≠ "a" :=
  released_never_launched (r := ⟨"a", "/bin/host"⟩) (by decide +kernel)

end Orchestrator.Store
