import Orchestrator.Invariants.Statuses

/-!
# The dependency gate

Readiness is not stored as a fact of its own: a task is made ready when it is
admitted without dependencies, and by `releaseReady` at the places that complete
a task. The invariant says that this misses nothing in either direction.
-/
namespace Orchestrator.Store
open Library

/-- The statuses behind the gate: all but those of a task that never started. -/
def TaskStatus.started : TaskStatus → Bool
  | .queued | .cancelled | .blockedDependency => false
  | _ => true

def Core.Opened (c : Core) (t : Task) : Prop :=
  ∀ dep ∈ t.dependencies, c.dependencyComplete dep = true

structure Gate (c : Core) : Prop where
  closed : ∀ t ∈ c.tasks, ∀ dep ∈ t.dependencies, ∃ u ∈ c.tasks, u.id = dep
  opened : ∀ t ∈ c.tasks, t.status.started = true → c.Opened t
  owners : ∀ g ∈ c.segments, ∀ t ∈ c.tasks, t.id = g.taskId → c.Opened t
  reached : ∀ t ∈ c.tasks, t.status ≠ .integrated ∧ t.status ≠ .budgetExhausted

/-- No queued task is left behind the open gate. -/
def Core.Drained (c : Core) : Prop := ∀ t ∈ c.tasks, t.status = .queued → ¬ c.Opened t

/-! ## Arcs -/

section Arcs
variable {s s' : TaskStatus} (h : Arc s s')
include h

theorem Arc.source_not_complete : s.complete = false := by
  cases h with
  | resume h => rcases h with rfl | rfl <;> rfl
  | accept => rfl
  | reject => rfl
  | retry => rfl
  | _ h => revert h; cases s <;> simp [TaskStatus.claimable, TaskStatus.busy,
      TaskStatus.cancellable, TaskStatus.complete]

theorem Arc.started (hs : s'.started = true) : s.started = true := by
  cases h with
  | resume h => rcases h with rfl | rfl <;> rfl
  | accept => rfl
  | reject => rfl
  | retry => rfl
  | cancel => cases hs
  | _ h => revert h; cases s <;> simp [TaskStatus.claimable, TaskStatus.busy, TaskStatus.started]

theorem Arc.target : s' ≠ .queued ∧ s' ≠ .integrated ∧ s' ≠ .budgetExhausted ∧
    s' ≠ .blockedDependency := by
  cases h with
  | exit _ h' => revert h'; cases s' <;> simp [TaskStatus.settled]
  | _ => simp

end Arcs

/-! ## Completion is kept -/

section Complete
variable {c c' : Core} {st : TaskStatus} {dep : String}

theorem Turn.dependencyComplete (h : Turn st c c') (hd : c.dependencyComplete dep = true) :
    c'.dependencyComplete dep = true := by
  rw [dependencyComplete_iff] at hd ⊢
  obtain ⟨u, hu, hid, hc⟩ := hd
  obtain ⟨u', hu', hst, rfl | ⟨-, harc⟩⟩ := h.task hu
  · exact ⟨u', hu', hid, hc⟩
  · rw [harc.source_not_complete] at hc
    cases hc

/-- A turn to another status than `completed` completes nothing. -/
theorem Turn.dependencyComplete_eq (h : Turn st c c') (hst : st ≠ .completed) :
    c'.dependencyComplete = c.dependencyComplete := by
  funext dep
  rw [Bool.eq_iff_iff]
  refine ⟨fun hd => ?_, h.dependencyComplete⟩
  rw [dependencyComplete_iff] at hd ⊢
  obtain ⟨u, hu, hid, hc⟩ := hd
  rcases h.turned u hu with hu | ⟨hs, harc⟩
  · exact ⟨u, hu, hid, hc⟩
  · obtain ⟨t, ht, htu⟩ := h.toKept.task_of hu
    have := (harc t ht (Task.static_id htu)).target
    rw [hs] at hc
    cases hs' : st <;> simp_all [TaskStatus.complete]

theorem releaseReady_mem {u : Task} (hu : u ∈ (releaseReady c).tasks) :
    ∃ t ∈ c.tasks, u.static = t.static ∧
      ((c.releasable t = true ∧ u.status = .ready) ∨ (c.releasable t = false ∧ u = t)) := by
  obtain ⟨seq, hrows, -⟩ := (releaseReady_released c).rows
  rw [Table.mem_def, hrows] at hu
  obtain ⟨t, ht, rfl⟩ := List.mem_map.mp hu
  refine ⟨t, ht, ?_⟩
  split
  · rename_i hr; exact ⟨rfl, .inl ⟨hr, rfl⟩⟩
  · rename_i hr; exact ⟨rfl, .inr ⟨by simpa using hr, rfl⟩⟩

theorem releasable_iff {t : Task} : c.releasable t = true ↔ t.status = .queued ∧ c.Opened t := by
  simp [Core.releasable, Core.Opened, List.all_eq_true]

theorem releaseReady_dependencyComplete :
    (releaseReady c).dependencyComplete = c.dependencyComplete := by
  funext dep
  rw [Bool.eq_iff_iff, dependencyComplete_iff, dependencyComplete_iff]
  constructor
  · rintro ⟨u, hu, hid, hc⟩
    obtain ⟨t, ht, hst, ⟨-, hs⟩ | ⟨-, rfl⟩⟩ := releaseReady_mem hu
    · rw [hs] at hc; cases hc
    · exact ⟨u, ht, hid, hc⟩
  · rintro ⟨t, ht, hid, hc⟩
    obtain ⟨u, hu, hst⟩ := (releaseReady_kept (c := c)).task ht
    obtain ⟨t', ht', hst', hcase⟩ := releaseReady_mem hu
    obtain rfl : t' = t :=
      Table.eq_of_key ht' ht (by rw [← Task.static_id hst', Task.static_id hst])
    obtain ⟨hr, -⟩ | ⟨-, rfl⟩ := hcase
    · rw [(releasable_iff.mp hr).1] at hc; cases hc
    · exact ⟨u, hu, hid, hc⟩

theorem block_dependencyComplete :
    (blockFailedDependencies c).dependencyComplete = c.dependencyComplete := by
  funext dep
  rw [Bool.eq_iff_iff, dependencyComplete_iff, dependencyComplete_iff]
  constructor
  · rintro ⟨u, hu, hid, hc⟩
    obtain ⟨t, ht, rfl⟩ := mem_blockFailedDependencies.mp hu
    by_cases hd : Doomed c.tasks t
    · rw [afterBlocking_doomed hd] at hc; cases hc
    · rw [afterBlocking_spared hd] at hid hc; exact ⟨t, ht, hid, hc⟩
  · rintro ⟨t, ht, hid, hc⟩
    have hd : ¬ Doomed c.tasks t := fun hd => by
      have := hd.blockable
      cases hs : t.status <;> simp_all [TaskStatus.blockable, TaskStatus.complete]
    exact ⟨t, mem_blockFailedDependencies.mpr ⟨t, ht, afterBlocking_spared hd⟩, hid, hc⟩

end Complete

/-! ## The invariant -/

section Invariant
variable {c c' : Core} {st : TaskStatus}

theorem Core.Opened.of_static {t u : Task} (hs : u.static = t.static)
    (hd : ∀ dep, c.dependencyComplete dep = true → c'.dependencyComplete dep = true)
    (h : c.Opened t) : c'.Opened u := by
  intro dep hdep
  rw [Task.static_dependencies hs] at hdep
  exact hd dep (h dep hdep)

/-- The gate under a rewrite of rows: what is complete stays so, and a task that
starts was started before or finds the gate open. -/
theorem Gate.kept (h : Gate c) (hk : Kept c c')
    (hd : ∀ dep, c.dependencyComplete dep = true → c'.dependencyComplete dep = true)
    (ho : ∀ g' ∈ c'.segments, (∃ g ∈ c.segments, g.taskId = g'.taskId) ∨
      ∃ t ∈ c.tasks, t.id = g'.taskId ∧ t.status.started = true)
    (hs : ∀ u ∈ c'.tasks, u.status.started = true →
      ∃ t ∈ c.tasks, u.static = t.static ∧ c.Opened t)
    (hr : ∀ u ∈ c'.tasks, u.status ≠ .integrated ∧ u.status ≠ .budgetExhausted) : Gate c' := by
  refine ⟨fun u hu dep hdep => ?_, fun u hu hst => ?_, fun g hg u hu hid => ?_, hr⟩
  · obtain ⟨t, ht, hst⟩ := hk.task_of hu
    rw [← Task.static_dependencies hst] at hdep
    obtain ⟨v, hv, rfl⟩ := h.closed t ht dep hdep
    obtain ⟨w, hw, hwv⟩ := hk.task hv
    exact ⟨w, hw, Task.static_id hwv⟩
  · obtain ⟨t, -, hst, ho⟩ := hs u hu hst
    exact ho.of_static hst hd
  · obtain ⟨t, ht, hst⟩ := hk.task_of hu
    refine Core.Opened.of_static hst.symm hd ?_
    have htid := Task.static_id hst
    rcases ho g hg with ⟨k, hk, hkg⟩ | ⟨v, hv, hvg, hv'⟩
    · exact h.owners k hk t ht (by rw [htid, hid, hkg])
    · obtain rfl : v = t := Table.eq_of_key hv ht (by rw [hvg, ← hid, htid])
      exact h.opened v hv hv'

theorem Gate.turn (h : Gate c) (ht : Turn st c c') : Gate c' := by
  refine h.kept ht.toKept (fun _ => ht.dependencyComplete) (fun g hg => ?_) (fun u hu hs => ?_)
    fun u hu => ?_
  · refine (ht.owners g hg).imp_right fun ⟨t, htm, hid, hc⟩ => ⟨t, htm, hid, ?_⟩
    revert hc; cases t.status <;> simp [TaskStatus.claimable, TaskStatus.started]
  · rcases ht.turned u hu with hu | ⟨hus, harc⟩
    · exact ⟨u, hu, rfl, h.opened u hu hs⟩
    · obtain ⟨t, htm, hst⟩ := ht.toKept.task_of hu
      rw [hus] at hs
      exact ⟨t, htm, hst.symm, h.opened t htm ((harc t htm (Task.static_id hst)).started hs)⟩
  · rcases ht.turned u hu with hu | ⟨hus, harc⟩
    · exact h.reached u hu
    · obtain ⟨t, htm, hst⟩ := ht.toKept.task_of hu
      have := (harc t htm (Task.static_id hst)).target
      exact hus ▸ ⟨this.2.1, this.2.2.1⟩

/-- A turn that completes nothing leaves no queued task behind. -/
theorem Turn.drained (ht : Turn st c c') (hst : st ≠ .completed) (h : c.Drained) : c'.Drained := by
  intro u hu hq
  rcases ht.turned u hu with hu | ⟨hus, harc⟩
  · rw [Core.Opened, ht.dependencyComplete_eq hst]
    exact h u hu hq
  · obtain ⟨t, htm, htu⟩ := ht.toKept.task_of hu
    exact absurd (hus ▸ hq) (harc t htm (Task.static_id htu)).target.1

theorem Gate.releaseReady (h : Gate c) : Gate (releaseReady c) ∧ (releaseReady c).Drained := by
  have hdep : (Store.releaseReady c).dependencyComplete = c.dependencyComplete :=
    releaseReady_dependencyComplete
  constructor
  · refine h.kept releaseReady_kept (fun dep hd => hdep ▸ hd)
      (fun g hg => .inl ⟨g, (releaseReady_released c).segments ▸ hg, rfl⟩) (fun u hu hs => ?_)
      fun u hu => ?_
    · obtain ⟨t, ht, hst, ⟨hr, -⟩ | ⟨-, rfl⟩⟩ := releaseReady_mem hu
      · exact ⟨t, ht, hst, (releasable_iff.mp hr).2⟩
      · exact ⟨u, ht, rfl, h.opened u ht hs⟩
    · obtain ⟨t, ht, -, ⟨-, hs⟩ | ⟨-, rfl⟩⟩ := releaseReady_mem hu
      · simp [hs]
      · exact h.reached u ht
  · intro u hu hq
    obtain ⟨t, ht, -, ⟨-, hs⟩ | ⟨hr, rfl⟩⟩ := releaseReady_mem hu
    · rw [hs] at hq; cases hq
    · intro ho
      rw [Core.Opened, hdep] at ho
      rw [releasable_iff.mpr ⟨hq, ho⟩] at hr
      cases hr

theorem Gate.block (h : Gate c) : Gate (blockFailedDependencies c) := by
  refine h.kept blockFailedDependencies_kept (fun dep hd => block_dependencyComplete (c := c) ▸ hd)
    (fun g hg => .inl ⟨g, hg, rfl⟩) (fun u hu hs => ?_) fun u hu => ?_
  all_goals obtain ⟨t, ht, rfl⟩ := mem_blockFailedDependencies.mp hu
  all_goals by_cases hd : Doomed c.tasks t
  · rw [afterBlocking_doomed hd] at hs; cases hs
  · rw [afterBlocking_spared hd] at hs ⊢; exact ⟨t, ht, rfl, h.opened t ht hs⟩
  · rw [afterBlocking_doomed hd]; simp
  · rw [afterBlocking_spared hd]; exact h.reached t ht

theorem drained_block (h : c.Drained) : (blockFailedDependencies c).Drained := by
  intro u hu hq
  obtain ⟨t, ht, rfl⟩ := mem_blockFailedDependencies.mp hu
  by_cases hd : Doomed c.tasks t
  · rw [afterBlocking_doomed hd] at hq; cases hq
  · rw [afterBlocking_spared hd] at hq ⊢
    rw [Core.Opened, block_dependencyComplete]
    exact h t ht hq

theorem Gate.close {c₁ : Core} {x : Option String} (h : Gate c) (hq : c.Drained)
    (ht : Turn st c c₁) (hx : Close st c c₁ x c') : Gate c' ∧ c'.Drained := by
  have h₁ := h.turn ht
  cases hx with
  | leave hc => exact ⟨h₁, ht.drained hc hq⟩
  | release => exact h₁.releaseReady
  | block _ _ hst =>
    have hc : st ≠ .completed := by rintro rfl; simp at hst
    exact ⟨h₁.block, drained_block (ht.drained hc hq)⟩

/-- An admitted task is ready or queued, and queued only behind tasks of its plan. -/
theorem Gate.submitted {d : DB} (h : Gate c) (hq : c.Drained)
    (hslots : Slots d.toPlatform c) (hs : Submitted d c c') : Gate c' ∧ c'.Drained := by
  obtain ⟨p, launchId, stamp, hp, -, hi⟩ := hs.inserted
  obtain ⟨new, hr, hrow, -⟩ := hi.rows
  have hmem : ∀ t, t ∈ c'.tasks ↔ t ∈ c.tasks ∨ t ∈ new := fun t => by
    rw [Table.mem_def, hr, List.mem_append]; rfl
  have hnew : ∀ t ∈ new, ∃ spec ∈ p.tasks, t.id = spec.id ∧ t.dependencies = spec.dependencies ∧
      (t.status = .ready ∧ t.dependencies = [] ∨ t.status = .queued ∧ t.dependencies ≠ []) := by
    intro t ht
    obtain ⟨spec, hspec, ⟨hd, n, -, -, rfl⟩ | ⟨hd, rfl⟩⟩ := forall₂_right hrow ht
    · exact ⟨spec, hspec, rfl, rfl, .inl ⟨if_pos hd, hd⟩⟩
    · exact ⟨spec, hspec, rfl, rfl, .inr ⟨if_neg hd, hd⟩⟩
  have hspecs : ∀ spec ∈ p.tasks, ∃ t ∈ new, t.id = spec.id := by
    intro spec hspec
    obtain ⟨t, ht, ⟨-, n, -, -, rfl⟩ | ⟨-, rfl⟩⟩ := forall₂_left hrow hspec
    · exact ⟨_, ht, rfl⟩
    · exact ⟨_, ht, rfl⟩
  have hdep : ∀ dep, c.dependencyComplete dep = true → c'.dependencyComplete dep = true := by
    intro dep hd
    rw [dependencyComplete_iff] at hd ⊢
    obtain ⟨u, hu, hid, hc⟩ := hd
    exact ⟨u, (hmem u).mpr (.inl hu), hid, hc⟩
  -- what is complete afterwards was complete before: no new task is
  have hback : ∀ dep, c'.dependencyComplete dep = true → c.dependencyComplete dep = true := by
    intro dep hd
    rw [dependencyComplete_iff] at hd ⊢
    obtain ⟨u, hu, hid, hc⟩ := hd
    rcases (hmem u).mp hu with hu | hu
    · exact ⟨u, hu, hid, hc⟩
    · obtain ⟨spec, -, -, -, ⟨hs, -⟩ | ⟨hs, -⟩⟩ := hnew u hu <;> rw [hs] at hc <;> cases hc
  refine ⟨⟨fun t ht dep hd => ?_, fun t ht hs => ?_, fun g hg t ht hid => ?_, fun t ht => ?_⟩,
    fun t ht hst ho => ?_⟩
  · rcases (hmem t).mp ht with ht | ht
    · obtain ⟨u, hu, hid⟩ := h.closed t ht dep hd
      exact ⟨u, (hmem u).mpr (.inl hu), hid⟩
    · obtain ⟨spec, hspec, -, hdeps, -⟩ := hnew t ht
      obtain ⟨spec', hspec', rfl⟩ := hp.closed spec hspec dep (hdeps ▸ hd)
      obtain ⟨u, hu, hid⟩ := hspecs spec' hspec'
      exact ⟨u, (hmem u).mpr (.inr hu), hid⟩
  · rcases (hmem t).mp ht with ht | ht
    · exact fun dep hd => hdep dep (h.opened t ht hs dep hd)
    · obtain ⟨-, -, -, -, ⟨-, hnil⟩ | ⟨hq, -⟩⟩ := hnew t ht
      · intro dep hd; rw [hnil] at hd; cases hd
      · rw [hq] at hs; cases hs
  · rw [hi.segments] at hg
    obtain ⟨u, hu, huid⟩ := hslots.owned g hg
    obtain rfl : t = u := Table.eq_of_key ht ((hmem u).mpr (.inl hu)) (hid.trans huid.symm)
    exact fun dep hd => hdep dep (h.owners g hg t hu hid dep hd)
  · rcases (hmem t).mp ht with ht | ht
    · exact h.reached t ht
    · obtain ⟨-, -, -, -, ⟨hs, -⟩ | ⟨hs, -⟩⟩ := hnew t ht <;> simp [hs]
  · rcases (hmem t).mp ht with ht' | ht'
    · exact hq t ht' hst fun dep hd => hback dep (ho dep hd)
    · obtain ⟨spec, hspec, -, hdeps, ⟨hs, -⟩ | ⟨-, hne⟩⟩ := hnew t ht'
      · rw [hs] at hst; cases hst
      · obtain ⟨dep, hd⟩ := List.exists_mem_of_ne_nil _ hne
        obtain ⟨u, hu, hid, hc⟩ := dependencyComplete_iff.mp (ho dep hd)
        obtain ⟨spec', hspec', rfl⟩ := hp.closed spec hspec dep (hdeps ▸ hd)
        obtain ⟨v, hv, hvid⟩ := hspecs spec' hspec'
        obtain rfl : u = v := Table.eq_of_key hu ((hmem v).mpr (.inr hv)) (hid.trans hvid.symm)
        obtain ⟨-, -, -, -, ⟨hs, -⟩ | ⟨hs, -⟩⟩ := hnew u hv <;> rw [hs] at hc <;> cases hc

end Invariant

/-- The invariants about statuses, with the slots they rest on. -/
structure Gated (p : Platform) (c : Core) : Prop extends Slots p c, Gate c where
  drained : c.Drained

theorem gated_fresh (p : Platform) (limits : ConcurrencyLimits) : Gated p (Core.fresh limits) := by
  refine ⟨slots_fresh p limits, ⟨?_, ?_, ?_, ?_⟩, ?_⟩
  · intro _ h; exact absurd h (Table.not_mem_empty _)
  · intro _ h; exact absurd h (Table.not_mem_empty _)
  · intro _ h; exact absurd h (Table.not_mem_empty _)
  · intro _ h; exact absurd h (Table.not_mem_empty _)
  · intro _ h; exact absurd h (Table.not_mem_empty _)

theorem Gated.step {d : DB} {op : Op} {x : Option String} {c c' : Core} (h : Gated d.toPlatform c)
    (hs : Step d op x c c') : Gated d.toPlatform c' := by
  have hslots := h.toSlots.step hs
  cases hs with
  | submit hs =>
    obtain ⟨hg, hd⟩ := h.toGate.submitted h.drained h.toSlots hs
    exact ⟨hslots, hg, hd⟩
  | move hm =>
    obtain ⟨st, c₁, ht, hx, -⟩ := hm.split h.toSlots
    obtain ⟨hg, hd⟩ := h.toGate.close h.drained ht hx
    exact ⟨hslots, hg, hd⟩

theorem gated_of_reachable {d : DB} {limits : ConcurrencyLimits} {s : State}
    (h : d.Reachable limits s) : Gated d.toPlatform s.toCore :=
  core_invariant (gated_fresh _ limits) (fun _ _ _ _ hi hs => hi.step hs) h

/-- What is complete stays complete. -/
theorem Step.dependencyComplete {d : DB} {op : Op} {x : Option String} {c c' : Core}
    (h : Slots d.toPlatform c) (hs : Step d op x c c') {dep : String}
    (hd : c.dependencyComplete dep = true) : c'.dependencyComplete dep = true := by
  cases hs with
  | submit hs =>
    obtain ⟨p, launchId, stamp, -, -, hi⟩ := hs.inserted
    obtain ⟨new, hr, -⟩ := hi.rows
    rw [dependencyComplete_iff] at hd ⊢
    obtain ⟨u, hu, hid, hc⟩ := hd
    exact ⟨u, by rw [Table.mem_def, hr]; exact List.mem_append_left _ hu, hid, hc⟩
  | move hm =>
    obtain ⟨st, c₁, ht, hx, -⟩ := hm.split h
    have h₁ := ht.dependencyComplete hd
    cases hx with
    | leave => exact h₁
    | release => rwa [releaseReady_dependencyComplete]
    | block => rwa [block_dependencyComplete]

theorem run_dependencyComplete {d : DB} {limits : ConcurrencyLimits} {s : State}
    (h : d.Reachable limits s) (ops : List Op) :
    ∀ dep, s.dependencyComplete dep = true → (d.run s ops).dependencyComplete dep = true := by
  refine run_relates (I := d.Reachable limits)
    (R := fun s s' => ∀ dep, s.dependencyComplete dep = true → s'.dependencyComplete dep = true)
    h (fun _ _ hd => hd) (fun _ _ _ h h' dep hd => h' dep (h dep hd))
    (fun s op hr => reachable_step op hr) fun s op hr dep hd => ?_
  refine step_induct (P := fun s' => s'.dependencyComplete dep = true) hd fun s' hx => ?_
  have hst := (exec_effect (bound_of_reachable hr) hx).step
  exact hst.dependencyComplete (slots_of_reachable hr) hd

theorem reachable_run {d : DB} {limits : ConcurrencyLimits} {s : State}
    (h : d.Reachable limits s) (ops : List Op) : d.Reachable limits (d.run s ops) := by
  obtain ⟨before, rfl⟩ := h
  exact ⟨before ++ ops, run_append.symm⟩

theorem completed_of_dependencyComplete {c : Core} {dep : String} (h : Gate c)
    (hd : c.dependencyComplete dep = true) :
    ∃ u ∈ c.tasks, u.id = dep ∧ u.status = .completed := by
  obtain ⟨u, hu, hid, hc⟩ := dependencyComplete_iff.mp hd
  refine ⟨u, hu, hid, ?_⟩
  have := (h.reached u hu).1
  cases hs : u.status <;> simp_all [TaskStatus.complete]

/-- At any two points of a run: a task that had started, or owned a segment, has
all its dependencies completed from then on; a completed task stays completed;
and no task is queued with all its dependencies completed. -/
theorem dependency_gate (d : DB) (limits : ConcurrencyLimits) (before after : List Op) :
    (∀ t ∈ (d.run (State.fresh limits) before).tasks,
      (t.status.started = true ∨
        ∃ g ∈ (d.run (State.fresh limits) before).segments, g.taskId = t.id) →
      ∀ dep ∈ t.dependencies, ∃ u ∈ (d.run (State.fresh limits) (before ++ after)).tasks,
        u.id = dep ∧ u.status = .completed) ∧
    (∀ t ∈ (d.run (State.fresh limits) before).tasks, t.status = .completed →
      ∃ t' ∈ (d.run (State.fresh limits) (before ++ after)).tasks,
        t'.id = t.id ∧ t'.status = .completed) ∧
    ∀ t ∈ (d.run (State.fresh limits) (before ++ after)).tasks, t.status = .queued →
      ∃ dep ∈ t.dependencies, ∀ u ∈ (d.run (State.fresh limits) (before ++ after)).tasks,
        u.id = dep → u.status ≠ .completed := by
  have hr : d.Reachable limits (d.run (State.fresh limits) before) := ⟨before, rfl⟩
  rw [show d.run (State.fresh limits) (before ++ after) =
    d.run (d.run (State.fresh limits) before) after from run_append]
  generalize d.run (State.fresh limits) before = s at hr ⊢
  have hg := gated_of_reachable hr
  have hg' := gated_of_reachable (reachable_run hr after)
  have hkeep := run_dependencyComplete hr after
  refine ⟨fun t ht hstart dep hdep => ?_, fun t ht hc => ?_, fun t ht hq => ?_⟩
  · refine completed_of_dependencyComplete hg'.toGate (hkeep dep ?_)
    rcases hstart with hs | ⟨g, hgm, hgt⟩
    · exact hg.opened t ht hs dep hdep
    · exact hg.owners g hgm t ht hgt.symm dep hdep
  · refine completed_of_dependencyComplete hg'.toGate (hkeep t.id ?_)
    exact dependencyComplete_iff.mpr ⟨t, ht, rfl, by rw [hc]; rfl⟩
  · have hnot := hg'.drained t ht hq
    simp only [Core.Opened, not_forall] at hnot
    obtain ⟨dep, hdep, hn⟩ := hnot
    refine ⟨dep, hdep, fun u hu hid hs => hn ?_⟩
    exact dependencyComplete_iff.mpr ⟨u, hu, hid, by rw [hs]; rfl⟩

end Orchestrator.Store
