import Orchestrator.Invariants.Gate
import Mathlib.Logic.Relation

/-!
# Blocking dependents

`blockFailedDependencies` runs when a task ends for good, over all tasks, and
cannot tell a task that failed for good from one that may still be retried. The
blocked tasks are all those behind an ended one, and only those as long as no
other task waits behind a failure that may be retried.
-/
namespace Orchestrator.Store
open Library

/-- The task `a` declares the dependency `b`. -/
def Core.DependsOn (c : Core) (a b : String) : Prop :=
  ∃ t ∈ c.tasks, t.id = a ∧ b ∈ t.dependencies

/-- No operation can complete the task: it is cancelled, or failed and `QueueRetry`
refuses it with `attempt_limit`. -/
def Core.Dead (c : Core) (t : Task) : Prop :=
  t.status = .cancelled ∨ (t.status = .failed ∧ c.attemptsExhausted t.budgetGroupId t.maxAttempts)

def Core.Retryable (c : Core) (t : Task) : Prop :=
  t.status = .failed ∧ ¬ c.attemptsExhausted t.budgetGroupId t.maxAttempts

/-- A dead task lies behind `t`. -/
def Core.BehindDead (c : Core) (id : String) : Prop :=
  ∃ u ∈ c.tasks, c.Dead u ∧ Relation.TransGen c.DependsOn id u.id

def Core.SoundlyBlocked (c : Core) : Prop :=
  ∀ t ∈ c.tasks, t.status = .blockedDependency → c.BehindDead t.id

/-- Nothing queued waits behind a task that has ended or is itself blocked. -/
def Core.FullyBlocked (c : Core) : Prop :=
  ∀ t ∈ c.tasks, ∀ u ∈ c.tasks, u.id ∈ t.dependencies →
    (c.Ended u ∨ u.status = .blockedDependency) → t.status ≠ .queued

/-- Ending `x` spares retryable work: a waiting task with a retryable dependency
waits for `x`, or for a task dead before, as well. -/
def Core.Spares (c : Core) (x : String) : Prop :=
  ∀ t ∈ c.tasks, t.status.blockable = true → t.id ≠ x →
    ∀ u ∈ c.tasks, u.id ∈ t.dependencies → c.Retryable u →
      Relation.TransGen c.DependsOn t.id x ∨ c.BehindDead t.id

/-- The step ends no task, or one that spares retryable work. -/
def DB.Spares (d : DB) (s : State) (op : Op) : Prop :=
  (∃ s', d.exec s op = .ok s') → ∀ x, s.ended op = some x → s.toCore.Spares x

/-! ## What later rows keep -/

section Growth
variable {c c' : Core}

theorem DependsOn.grows (h : Grows c c') {a b : String} (hd : c.DependsOn a b) :
    c'.DependsOn a b := by
  obtain ⟨t, ht, rfl, hb⟩ := hd
  obtain ⟨t', ht', hst⟩ := h.task ht
  exact ⟨t', ht', Task.static_id hst, Task.static_dependencies hst ▸ hb⟩

theorem DependsOn.of_kept (h : Kept c c') {a b : String} (hd : c'.DependsOn a b) :
    c.DependsOn a b := by
  obtain ⟨t', ht', rfl, hb⟩ := hd
  obtain ⟨t, ht, hst⟩ := h.task_of ht'
  exact ⟨t, ht, Task.static_id hst, Task.static_dependencies hst ▸ hb⟩

theorem taskAttempts_le_group {t : Task} (ht : t ∈ c.tasks) :
    c.taskAttempts t.id ≤ c.groupAttempts t.budgetGroupId := by
  refine Table.count_mono fun a _ ha => ?_
  rw [decide_eq_true_eq] at ha
  simp [Core.inGroup, Table.find?_eq_some.mpr ⟨ht, ha.symm⟩]

theorem Core.Ended.dead {t : Task} (ht : t ∈ c.tasks) (h : c.Ended t) : c.Dead t := by
  refine h.imp_right fun ⟨hs, hx⟩ => ⟨hs, ?_⟩
  have := taskAttempts_le_group ht
  unfold Core.spent at hx
  unfold Core.attemptsExhausted
  omega

/-- A dead task whose status is kept stays dead. -/
theorem Core.Dead.grows (h : Grows c c') {t u : Task} (hs : u.static = t.static)
    (hst : u.status = t.status) (hd : c.Dead t) : c'.Dead u := by
  unfold Core.Dead Core.attemptsExhausted at hd ⊢
  rw [hst, Task.static_budgetGroupId hs, Task.static_maxAttempts hs]
  have := groupAttempts_grows h t.budgetGroupId
  refine hd.imp_right (And.imp_right fun hx => ?_)
  omega

theorem Core.BehindDead.grows (h : Grows c c')
    (hd : ∀ u ∈ c.tasks, c.Dead u → ∃ u' ∈ c'.tasks, u'.id = u.id ∧ c'.Dead u') {id : String}
    (hb : c.BehindDead id) : c'.BehindDead id := by
  obtain ⟨u, hu, hdead, hpath⟩ := hb
  obtain ⟨u', hu', hid, hdead'⟩ := hd u hu hdead
  exact ⟨u', hu', hdead', hid ▸ Relation.TransGen.mono (fun _ _ => DependsOn.grows h) _ _ hpath⟩

end Growth

/-! ## The dead stay dead -/

section Dead
variable {c c' : Core} {st : TaskStatus}

theorem Turn.dead (h : Turn st c c') {t : Task} (ht : t ∈ c.tasks) (hd : c.Dead t) :
    ∃ u ∈ c'.tasks, u.id = t.id ∧ c'.Dead u := by
  obtain ⟨u, hu, hst, hcase⟩ := h.task ht
  refine ⟨u, hu, Task.static_id hst, ?_⟩
  rcases hcase with rfl | ⟨hs, harc⟩
  · exact Core.Dead.grows h.toGrows rfl rfl hd
  · rcases hd with hd | ⟨hd, hx⟩
    · rw [hd] at harc
      cases harc <;> simp_all [TaskStatus.claimable, TaskStatus.busy, TaskStatus.cancellable]
    · rw [hd] at harc
      cases harc with
      | retry =>
        rcases h.retried rfl u hu with hu | hleft
        · rw [Table.eq_of_key hu ht (Task.static_id hst), hd] at hs
          cases hs
        · rw [Task.static_budgetGroupId hst, Task.static_maxAttempts hst] at hleft
          exact absurd hx hleft
      | _ => simp_all [TaskStatus.claimable, TaskStatus.busy, TaskStatus.cancellable]

theorem releaseReady_dead {t : Task} (ht : t ∈ c.tasks) (hd : c.Dead t) :
    ∃ u ∈ (releaseReady c).tasks, u.id = t.id ∧ (releaseReady c).Dead u := by
  obtain ⟨u, hu, hst⟩ := (releaseReady_kept (c := c)).task ht
  refine ⟨u, hu, Task.static_id hst, ?_⟩
  obtain ⟨t', ht', hst', hcase⟩ := releaseReady_mem hu
  obtain rfl : t' = t := Table.eq_of_key ht' ht (by rw [← Task.static_id hst', Task.static_id hst])
  rcases hcase with ⟨hr, -⟩ | ⟨-, rfl⟩
  · have hq := (releasable_iff.mp hr).1
    rcases hd with hd | ⟨hd, -⟩ <;> rw [hq] at hd <;> cases hd
  · exact Core.Dead.grows releaseReady_kept.toGrows rfl rfl hd

theorem Core.Dead.not_blockable {t : Task} (h : c.Dead t) : t.status.blockable = false := by
  rcases h with h | ⟨h, -⟩ <;> rw [h] <;> rfl

theorem block_dead {t : Task} (ht : t ∈ c.tasks) (hd : c.Dead t) :
    t ∈ (blockFailedDependencies c).tasks ∧ (blockFailedDependencies c).Dead t := by
  have hspared : ¬ Doomed c.tasks t := fun h => by
    have := h.blockable
    rw [hd.not_blockable] at this
    cases this
  exact ⟨mem_blockFailedDependencies.mpr ⟨t, ht, afterBlocking_spared hspared⟩,
    Core.Dead.grows blockFailedDependencies_kept.toGrows rfl rfl hd⟩

theorem Submitted.dead {d : DB} (h : Submitted d c c') {t : Task} (ht : t ∈ c.tasks)
    (hd : c.Dead t) : t ∈ c'.tasks ∧ c'.Dead t := by
  obtain ⟨p, launchId, stamp, -, -, hi⟩ := h.inserted
  obtain ⟨new, hr, -⟩ := hi.rows
  refine ⟨?_, Core.Dead.grows h.grows rfl rfl hd⟩
  rw [Table.mem_def, hr]
  exact List.mem_append_left _ ht

end Dead

/-! ## Blocking is sound as long as retryable work is spared -/

section Sound
variable {c c' c₁ : Core} {st : TaskStatus}

theorem Core.SoundlyBlocked.turn (h : c.SoundlyBlocked) (ht : Turn st c c₁) :
    c₁.SoundlyBlocked := by
  intro u hu hb
  rcases ht.turned u hu with hu | ⟨hs, harc⟩
  · exact (h u hu hb).grows ht.toGrows fun t htm hd => ht.dead htm hd
  · obtain ⟨t, htm, hst⟩ := ht.toKept.task_of hu
    exact absurd (hs ▸ hb) (harc t htm (Task.static_id hst)).target.2.2.2

theorem Core.SoundlyBlocked.releaseReady (h : c.SoundlyBlocked) :
    (releaseReady c).SoundlyBlocked := by
  intro u hu hb
  obtain ⟨t, ht, -, ⟨-, hs⟩ | ⟨-, rfl⟩⟩ := releaseReady_mem hu
  · rw [hs] at hb; cases hb
  · exact (h u ht hb).grows releaseReady_kept.toGrows fun t ht hd => releaseReady_dead ht hd

/-- A doomed task lies behind a dead one when every retryable dependency is spared. -/
theorem Doomed.behindDead (h : c.SoundlyBlocked)
    (hr : ∀ t ∈ c.tasks, t.status ≠ .integrated ∧ t.status ≠ .budgetExhausted)
    (hs : ∀ t ∈ c.tasks, t.status.blockable = true → ∀ u ∈ c.tasks, u.id ∈ t.dependencies →
      c.Retryable u → c.BehindDead t.id) {t : Task} (hd : Doomed c.tasks t) :
    c.BehindDead t.id := by
  induction hd with
  | @direct t u ht hb hu hdep hst =>
    have hedge : c.DependsOn t.id u.id := ⟨t, ht, rfl, hdep⟩
    cases hus : u.status with
    | failed =>
      by_cases hx : c.attemptsExhausted u.budgetGroupId u.maxAttempts
      · exact ⟨u, hu, .inr ⟨hus, hx⟩, .single hedge⟩
      · exact hs t ht hb u hu hdep ⟨hus, hx⟩
    | cancelled => exact ⟨u, hu, .inl hus, .single hedge⟩
    | blockedDependency =>
      obtain ⟨w, hw, hdead, hpath⟩ := h u hu hus
      exact ⟨w, hw, hdead, .head hedge hpath⟩
    | budgetExhausted => exact absurd hus (hr u hu).2
    | _ => rw [hus] at hst; cases hst
  | @via t u ht hb hdep _ ih =>
    obtain ⟨w, hw, hdead, hpath⟩ := ih
    exact ⟨w, hw, hdead, .head ⟨t, ht, rfl, hdep⟩ hpath⟩

theorem Core.SoundlyBlocked.block (h : c.SoundlyBlocked)
    (hr : ∀ t ∈ c.tasks, t.status ≠ .integrated ∧ t.status ≠ .budgetExhausted)
    (hs : ∀ t ∈ c.tasks, t.status.blockable = true → ∀ u ∈ c.tasks, u.id ∈ t.dependencies →
      c.Retryable u → c.BehindDead t.id) : (blockFailedDependencies c).SoundlyBlocked := by
  have hgrow : ∀ id, c.BehindDead id → (blockFailedDependencies c).BehindDead id :=
    fun id hb => hb.grows blockFailedDependencies_kept.toGrows fun t ht hd =>
      ⟨t, (block_dead ht hd).1, rfl, (block_dead ht hd).2⟩
  intro u hu hb
  obtain ⟨t, ht, rfl⟩ := mem_blockFailedDependencies.mp hu
  rw [afterBlocking_field Task.id fun _ => rfl]
  by_cases hd : Doomed c.tasks t
  · exact hgrow _ (hd.behindDead h hr hs)
  · rw [afterBlocking_spared hd] at hb
    exact hgrow _ (h t ht hb)

theorem Core.SoundlyBlocked.move {d : DB} {op : Op} {x : Option String} (h : c.SoundlyBlocked)
    (hg : Gated d.toPlatform c) (hm : Move d op x c c') (hs : ∀ id, x = some id → c.Spares id) :
    c'.SoundlyBlocked := by
  obtain ⟨st, c₁, ht, hx, -⟩ := hm.split hg.toSlots
  have h₁ := h.turn ht
  have hg₁ : Gate c₁ := hg.toGate.turn ht
  cases hx with
  | leave => exact h₁
  | release => exact h₁.releaseReady
  | @block x hxm _ _ hend hrest hattempts =>
    refine h₁.block hg₁.reached fun t htm hb u hum hdep hretry => ?_
    obtain ⟨x', hx', hxid⟩ := ht.toKept.task hxm
    have hxdead : c₁.Dead x' := Core.Ended.dead hx' (hend x' hx' (Task.static_id hxid))
    -- neither the waiting task nor its dependency is the one that ends
    have htx : t.id ≠ x.id := fun hid => by
      have := (Core.Ended.dead htm (hend t htm hid)).not_blockable
      rw [hb] at this
      cases this
    have hux : u.id ≠ x.id := fun hid => by
      rcases Core.Ended.dead hum (hend u hum hid) with hc | ⟨-, hx⟩
      · rw [hretry.1] at hc; cases hc
      · exact hretry.2 hx
    have hretry' : c.Retryable u := by
      refine ⟨hretry.1, fun hx => hretry.2 ?_⟩
      unfold Core.attemptsExhausted at hx ⊢
      rwa [groupAttempts_eq ht.toKept hattempts]
    rcases hs x.id rfl t (hrest t htm htx) hb htx u (hrest u hum hux) hdep hretry' with hp | hp
    · exact ⟨x', hx', hxdead, Task.static_id hxid ▸
        Relation.TransGen.mono (fun _ _ => DependsOn.grows ht.toGrows) _ _ hp⟩
    · exact hp.grows ht.toGrows fun t htm hd => ht.dead htm hd

theorem Core.SoundlyBlocked.submitted {d : DB} (h : c.SoundlyBlocked) (hs : Submitted d c c') :
    c'.SoundlyBlocked := by
  intro u hu hb
  obtain ⟨p, launchId, stamp, -, -, hi⟩ := hs.inserted
  obtain ⟨new, hr, hrow, -⟩ := hi.rows
  rw [Table.mem_def, hr, List.mem_append] at hu
  rcases hu with hu | hu
  · exact (h u hu hb).grows hs.grows fun t ht hd => ⟨t, (hs.dead ht hd).1, rfl, (hs.dead ht hd).2⟩
  · obtain ⟨spec, -, ⟨hd, n, -, -, rfl⟩ | ⟨hd, rfl⟩⟩ := forall₂_right hrow hu <;>
      simp [DB.taskRow, hd] at hb

theorem Core.SoundlyBlocked.step {d : DB} {op : Op} {x : Option String} (h : c.SoundlyBlocked)
    (hg : Gated d.toPlatform c) (hst : Step d op x c c') (hs : ∀ id, x = some id → c.Spares id) :
    c'.SoundlyBlocked := by
  cases hst with
  | submit hsub => exact h.submitted hsub
  | move hm => exact h.move hg hm hs

/-- A step that leaves every blocked task behind a dead one has spared retryable work. -/
theorem Move.spares {d : DB} {op : Op} {x : String} (hg : Gated d.toPlatform c)
    (hm : Move d op (some x) c c')
    (h' : c'.SoundlyBlocked) : c.Spares x := by
  obtain ⟨st, c₁, ht, hx, -⟩ := hm.split hg.toSlots
  cases hx with
  | @block x hxm _ _ hend hrest hattempts =>
  intro t htm hb htx u hum hdep hretry
  by_contra hno
  rw [not_or] at hno
  have hkeep : ∀ v ∈ c.tasks, v.id ≠ x.id → v ∈ c₁.tasks := by
    intro v hv hne
    obtain ⟨w, hw, hst⟩ := ht.toKept.task hv
    have hwid := Task.static_id hst
    rwa [← Table.eq_of_key (hrest w hw (hwid ▸ hne)) hv hwid]
  have hux : u.id ≠ x.id := fun hid => hno.1 (.single ⟨t, htm, rfl, hid ▸ hdep⟩)
  have hdoom : Doomed c₁.tasks t :=
    .direct (hkeep t htm htx) hb (hkeep u hum hux) hdep (by rw [hretry.1]; rfl)
  have hkept : Kept c (blockFailedDependencies c₁) := ht.toKept.trans blockFailedDependencies_kept
  obtain ⟨w, hw, hdead, hpath⟩ := h' (t.withStatus .blockedDependency)
    (mem_blockFailedDependencies.mpr ⟨t, hdoom.mem, afterBlocking_doomed hdoom⟩) rfl
  have hpath' : Relation.TransGen c.DependsOn t.id w.id :=
    Relation.TransGen.mono (fun _ _ => DependsOn.of_kept hkept) _ _ hpath
  by_cases hwx : w.id = x.id
  · exact hno.1 (hwx ▸ hpath')
  · obtain ⟨v, hv, rfl⟩ := mem_blockFailedDependencies.mp hw
    have hspared : ¬ Doomed c₁.tasks v := fun hd => by
      rw [afterBlocking_doomed hd] at hdead
      rcases hdead with h | ⟨h, -⟩ <;> cases h
    rw [afterBlocking_spared hspared] at hdead hpath' hwx
    refine hno.2 ⟨v, hrest v hv hwx, hdead.imp_right (And.imp_right fun hx => ?_), hpath'⟩
    unfold Core.attemptsExhausted at hx ⊢
    rwa [groupAttempts_eq hkept hattempts] at hx

end Sound

/-- Every state of a run blocks only behind dead tasks if and only if each of its
steps that ends a task spares the work waiting behind retryable failures. -/
theorem blocking_sound_iff (d : DB) (limits : ConcurrencyLimits) (ops : List Op) :
    (∀ before, before <+: ops → (d.run (State.fresh limits) before).SoundlyBlocked) ↔
      AllSteps d.step d.Spares (State.fresh limits) ops := by
  have hsound : (State.fresh limits).SoundlyBlocked := fun _ h =>
    absurd h (Table.not_mem_empty _)
  have hr := reachable_fresh d limits
  generalize State.fresh limits = s at hsound hr ⊢
  induction ops generalizing s with
  | nil =>
    refine ⟨fun _ => trivial, fun _ before h => ?_⟩
    rw [List.prefix_nil.mp h]
    exact hsound
  | cons op ops ih =>
    have hg := gated_of_reachable hr
    have hstep : d.Spares s op ↔ (d.step s op).SoundlyBlocked := by
      cases hx : d.exec s op with
      | error e =>
        rw [step_of_error hx]
        exact iff_of_true (fun ⟨s', hs'⟩ => by rw [hx] at hs'; cases hs') hsound
      | ok s' =>
        rw [step_of_exec hx]
        have hst := (exec_effect (bound_of_reachable hr) hx).step
        refine ⟨fun h => hsound.step hg hst (h ⟨s', hx⟩), fun h _ x hend => ?_⟩
        rw [hend] at hst
        cases hst with
        | submit _ hnone => cases hnone
        | move hm => exact hm.spares hg h
    constructor
    · intro h
      have hnext : (d.step s op).SoundlyBlocked := h [op] (by simp)
      refine ⟨hstep.mpr hnext, (ih _ hnext (reachable_step op hr)).mp fun before hb => ?_⟩
      exact h (op :: before) (List.cons_prefix_cons.mpr ⟨rfl, hb⟩)
    · rintro ⟨hs, hrest⟩ before hb
      have hnext := hstep.mp hs
      cases before with
      | nil => exact hsound
      | cons op' before =>
        obtain ⟨rfl, hpre⟩ := List.cons_prefix_cons.mp hb
        exact (ih _ hnext (reachable_step op' hr)).mpr hrest before hpre

/-- `a` has failed once of twice and `b` waits for it; `x` is cancelled. -/
def retryableOps : List Op :=
  toyStart [toyTask "a" 2 [], toyTask "b" 1 ["a"], toyTask "x" 1 []] ++
    [toyClaim 11, toyCommit "a" 11 1 .failed, toyCommit "a" 11 2 .exited,
      Op.requestStop (toyEnv 12) "x" 1 "cancelled"]

/-- Cancelling `x` blocks `b`, which waits for a retryable task alone. -/
theorem blocking_unsound : ¬ (toyDB.run (State.fresh {}) retryableOps).SoundlyBlocked := by
  have hfacts : (∃ t ∈ (toyDB.run (State.fresh {}) retryableOps).tasks.rows,
        t.id = "b" ∧ t.status = .blockedDependency) ∧
      (∀ t ∈ (toyDB.run (State.fresh {}) retryableOps).tasks.rows,
        (t.id = "b" → t.dependencies = ["a"]) ∧ (t.id = "a" → t.dependencies = [])) ∧
      ∀ t ∈ (toyDB.run (State.fresh {}) retryableOps).tasks.rows, t.id = "a" →
        t.status = .failed ∧ ¬ (toyDB.run (State.fresh {}) retryableOps).attemptsExhausted
          t.budgetGroupId t.maxAttempts := by decide +kernel
  obtain ⟨⟨t, ht, hid, hst⟩, hdeps, ha⟩ := hfacts
  intro h
  obtain ⟨u, hu, hdead, hpath⟩ := h t ht hst
  have hbehind : ∀ v, Relation.TransGen
      (toyDB.run (State.fresh {}) retryableOps).DependsOn t.id v → v = "a" := by
    intro v hv
    induction hv with
    | single hd =>
      obtain ⟨t', ht', hid', hmem⟩ := hd
      rw [(hdeps t' ht').1 (hid'.trans hid)] at hmem
      exact List.mem_singleton.mp hmem
    | tail _ hd ih =>
      obtain ⟨t', ht', hid', hmem⟩ := hd
      rw [(hdeps t' ht').2 (hid'.trans ih)] at hmem
      cases hmem
  obtain ⟨hfailed, hleft⟩ := ha u hu (hbehind u.id hpath)
  rcases hdead with h | ⟨-, h⟩
  · rw [hfailed] at h; cases h
  · exact hleft h

/-! ## Blocking is complete -/

section Complete
variable {c c' c₁ : Core} {st : TaskStatus}

/-- A turn to a status that ends nothing leaves the ended and the blocked as they were. -/
theorem Turn.stuck_of (ht : Turn st c c₁) (hx : st ≠ .cancelled)
    (hf : st = .failed → ∀ u ∈ c₁.tasks, u ∈ c.tasks ∨ ¬ c₁.spent u) {u : Task}
    (hu : u ∈ c₁.tasks) (h : c₁.Ended u ∨ u.status = .blockedDependency) :
    u ∈ c.tasks ∧ (c.Ended u ∨ u.status = .blockedDependency) := by
  have hold : u ∈ c.tasks := by
    rcases ht.turned u hu with hu | ⟨hs, harc⟩
    · exact hu
    · obtain ⟨t, htm, hst⟩ := ht.toKept.task_of hu
      rcases h with (h | ⟨h, hsp⟩) | h
      · exact absurd (hs.symm.trans h) hx
      · exact (hf (hs.symm.trans h) u hu).resolve_right fun hn => hn hsp
      · exact absurd (hs ▸ h) (harc t htm (Task.static_id hst)).target.2.2.2
  refine ⟨hold, h.imp_left (Or.imp_right fun ⟨hfail, hsp⟩ => ⟨hfail, ?_⟩)⟩
  rcases ht.attempts_of u.id with heq | hrun
  · rwa [Core.spent, heq] at hsp
  · rw [hrun u hu rfl] at hfail
    cases hfail

theorem Core.FullyBlocked.turn (h : c.FullyBlocked) (ht : Turn st c c₁) (hx : st ≠ .cancelled)
    (hf : st = .failed → ∀ u ∈ c₁.tasks, u ∈ c.tasks ∨ ¬ c₁.spent u) : c₁.FullyBlocked := by
  intro t htm u hum hdep hstuck hq
  obtain ⟨huc, hstuck'⟩ := ht.stuck_of hx hf hum hstuck
  rcases ht.turned t htm with htc | ⟨hs, harc⟩
  · exact h t htc u huc hdep hstuck' hq
  · obtain ⟨v, hv, hst⟩ := ht.toKept.task_of htm
    exact (harc v hv (Task.static_id hst)).target.1 (hs ▸ hq)

theorem Core.FullyBlocked.releaseReady (h : c.FullyBlocked) : (releaseReady c).FullyBlocked := by
  intro t htm u hum hdep hstuck hq
  obtain ⟨t₀, ht₀, -, ⟨-, hs⟩ | ⟨-, rfl⟩⟩ := releaseReady_mem htm
  · rw [hs] at hq; cases hq
  · obtain ⟨u₀, hu₀, -, ⟨-, hs⟩ | ⟨-, rfl⟩⟩ := releaseReady_mem hum
    · rcases hstuck with (h | ⟨h, -⟩) | h <;> rw [hs] at h <;> cases h
    · refine h t ht₀ u hu₀ hdep (hstuck.imp_left (Or.imp_right (And.imp_right fun hx => ?_))) hq
      rwa [Core.spent, Core.taskAttempts, (releaseReady_released c).attempts] at hx

/-- After the blocking loop no queued task is left below one that has ended. -/
theorem fullyBlocked_block : (blockFailedDependencies c).FullyBlocked := by
  intro t htm u hum hdep hstuck hq
  obtain ⟨t, ht, rfl⟩ := mem_blockFailedDependencies.mp htm
  obtain ⟨u, hu, rfl⟩ := mem_blockFailedDependencies.mp hum
  by_cases hd : Doomed c.tasks t
  · rw [afterBlocking_doomed hd] at hq; cases hq
  · rw [afterBlocking_spared hd] at hq hdep
    rw [afterBlocking_field Task.id fun _ => rfl] at hdep
    have hb : t.status.blockable = true := by rw [hq]; rfl
    by_cases hud : Doomed c.tasks u
    · exact hd (.via ht hb hdep hud)
    · rw [afterBlocking_spared hud] at hstuck
      refine hd (.direct ht hb hu hdep ?_)
      rcases hstuck with (h | ⟨h, -⟩) | h <;> rw [h] <;> rfl

theorem Core.FullyBlocked.submitted {d : DB} (h : c.FullyBlocked)
    (hs : Submitted d c c') : c'.FullyBlocked := by
  intro t htm u hum hdep hstuck hq
  obtain ⟨p, launchId, stamp, hp, -, hi⟩ := hs.inserted
  obtain ⟨new, hr, hrow, -⟩ := hi.rows
  have hmem : ∀ t, t ∈ c'.tasks ↔ t ∈ c.tasks ∨ t ∈ new := fun t => by
    rw [Table.mem_def, hr, List.mem_append]; rfl
  -- a new task has neither ended nor is it blocked
  have hnew : u ∉ new := fun hu => by
    obtain ⟨spec, -, ⟨hd, n, -, -, rfl⟩ | ⟨hd, rfl⟩⟩ := forall₂_right hrow hu <;>
      simp [DB.taskRow, hd, Core.Ended] at hstuck
  have huc : u ∈ c.tasks := ((hmem u).mp hum).resolve_right hnew
  rcases (hmem t).mp htm with ht | ht
  · refine h t ht u huc hdep (hstuck.imp_left (Or.imp_right (And.imp_right fun hx => ?_))) hq
    rwa [Core.spent, Core.taskAttempts, hi.attempts] at hx
  · obtain ⟨spec, hspec, hcase⟩ := forall₂_right hrow ht
    have hdeps : t.dependencies = spec.dependencies := by
      rcases hcase with ⟨-, n, -, -, rfl⟩ | ⟨-, rfl⟩ <;> rfl
    obtain ⟨spec', hspec', hid⟩ := hp.closed spec hspec u.id (hdeps ▸ hdep)
    obtain ⟨v, hv, hcase'⟩ := forall₂_left hrow hspec'
    have hvid : v.id = spec'.id := by
      rcases hcase' with ⟨-, n, -, -, rfl⟩ | ⟨-, rfl⟩ <;> rfl
    obtain rfl : u = v := Table.eq_of_key hum ((hmem v).mpr (.inr hv)) (by rw [hvid, hid])
    exact hnew hv

theorem Core.FullyBlocked.step {d : DB} {op : Op} {x : Option String} (h : c.FullyBlocked)
    (hg : Gated d.toPlatform c) (hst : Step d op x c c') : c'.FullyBlocked := by
  cases hst with
  | submit hsub => exact h.submitted hsub
  | move hm =>
    obtain ⟨st, c₁, ht, hx, -⟩ := hm.split hg.toSlots
    cases hx with
    | leave _ hx hf => exact h.turn ht hx hf
    | release hst =>
      subst hst
      exact (h.turn ht (by simp) (by simp)).releaseReady
    | block => exact fullyBlocked_block

end Complete

theorem fullyBlocked_of_reachable {d : DB} {limits : ConcurrencyLimits} {s : State}
    (h : d.Reachable limits s) : s.FullyBlocked := by
  have : Gated d.toPlatform s.toCore ∧ s.FullyBlocked := by
    refine core_invariant (I := fun c => Gated d.toPlatform c ∧ c.FullyBlocked)
      ⟨gated_fresh _ limits, fun _ h => absurd h (Table.not_mem_empty _)⟩
      (fun _ _ _ _ hi hs => ⟨hi.1.step hs, hi.2.step hi.1 hs⟩) h
  exact this.2

/-- What has ended has no active segment, and every task that depends on it, over
any number of dependencies, is blocked or cancelled. -/
theorem blocking_complete (d : DB) (limits : ConcurrencyLimits) (ops : List Op) :
    ∀ u ∈ (d.run (State.fresh limits) ops).tasks, (d.run (State.fresh limits) ops).Ended u →
      (d.run (State.fresh limits) ops).taskActive u.id = 0 ∧
      ∀ t ∈ (d.run (State.fresh limits) ops).tasks,
        Relation.TransGen (d.run (State.fresh limits) ops).DependsOn t.id u.id →
          t.status = .blockedDependency ∨ t.status = .cancelled := by
  have hr : d.Reachable limits (d.run (State.fresh limits) ops) := ⟨ops, rfl⟩
  generalize d.run (State.fresh limits) ops = s at hr ⊢
  have hg := gated_of_reachable hr
  have hfull := fullyBlocked_of_reachable hr
  intro u hu hend
  refine ⟨?_, fun t ht hpath => ?_⟩
  · refine taskActive_eq_zero.mpr (hg.toSlots.idle hu ?_)
    rcases hend with h | ⟨h, -⟩ <;> rw [h] <;> rfl
  · -- a direct dependent of something stuck never started, so it is blocked or cancelled
    have hdirect : ∀ v ∈ s.tasks, (s.Ended v ∨ v.status = .blockedDependency) →
        ∀ t ∈ s.tasks, v.id ∈ t.dependencies →
          t.status = .blockedDependency ∨ t.status = .cancelled := by
      intro v hv hstuck t ht hdep
      have hq := hfull t ht v hv hdep hstuck
      have hns : ¬ t.status.started = true := fun hs => by
        obtain ⟨w, hw, hwid, hc⟩ := dependencyComplete_iff.mp (hg.opened t ht hs v.id hdep)
        obtain rfl : w = v := Table.eq_of_key hw hv hwid
        rcases hstuck with (h | ⟨h, -⟩) | h <;> rw [h] at hc <;> cases hc
      cases hs : t.status <;> simp_all [TaskStatus.started]
    have hall : ∀ a, Relation.TransGen s.DependsOn a u.id → ∀ t ∈ s.tasks, t.id = a →
        t.status = .blockedDependency ∨ t.status = .cancelled := by
      intro a hpath
      induction hpath using Relation.TransGen.head_induction_on with
      | single h =>
        rintro t ht rfl
        obtain ⟨t', ht', hid, hdep⟩ := h
        obtain rfl : t' = t := Table.eq_of_key ht' ht hid
        exact hdirect u hu (.inl hend) t' ht hdep
      | head h _ ih =>
        rintro t ht rfl
        obtain ⟨t', ht', hid, hdep⟩ := h
        obtain rfl : t' = t := Table.eq_of_key ht' ht hid
        obtain ⟨v, hv, rfl⟩ := hg.closed t' ht _ hdep
        refine hdirect v hv ?_ t' ht hdep
        rcases ih v hv rfl with h | h
        · exact .inr h
        · exact .inl (.inl h)
    exact hall t.id hpath t ht rfl

/-- `b` waits for `a`, which has failed for the last time. -/
def exhaustedOps : List Op :=
  toyStart [toyTask "a" 1 [], toyTask "b" 1 ["a"]] ++
    [toyClaim 11, toyCommit "a" 11 1 .failed, toyCommit "a" 11 2 .exited]

/-- Nothing waits behind the exhausted task. -/
theorem exhausted_task_blocks :
    ∃ u ∈ (toyDB.run (State.fresh {}) exhaustedOps).tasks.rows,
      ∃ t ∈ (toyDB.run (State.fresh {}) exhaustedOps).tasks.rows,
        u.id = "a" ∧ t.id = "b" ∧ (toyDB.run (State.fresh {}) exhaustedOps).taskActive u.id = 0 ∧
          (t.status = .blockedDependency ∨ t.status = .cancelled) := by
  have h : ∃ u ∈ (toyDB.run (State.fresh {}) exhaustedOps).tasks.rows,
      ∃ t ∈ (toyDB.run (State.fresh {}) exhaustedOps).tasks.rows,
        u.id = "a" ∧ t.id = "b" ∧ u.id ∈ t.dependencies ∧ u.status = .failed ∧
          (toyDB.run (State.fresh {}) exhaustedOps).spent u := by decide +kernel
  obtain ⟨u, hu, t, ht, hua, htb, hdep, hfailed, hspent⟩ := h
  have hend : (toyDB.run (State.fresh {}) exhaustedOps).Ended u := .inr ⟨hfailed, hspent⟩
  have hpath : Relation.TransGen (toyDB.run (State.fresh {}) exhaustedOps).DependsOn t.id u.id :=
    .single ⟨t, Table.mem_def.mpr ht, rfl, hdep⟩
  have h := blocking_complete toyDB {} exhaustedOps u (Table.mem_def.mpr hu) hend
  exact ⟨u, hu, t, ht, hua, htb, h.1, h.2 t (Table.mem_def.mpr ht) hpath⟩

/-- `b` waits for `a`; both are cancelled, `b` first. -/
def cancelledOps : List Op :=
  toyStart [toyTask "a" 2 [], toyTask "b" 1 ["a"]] ++
    [Op.requestStop (toyEnv 11) "b" 1 "cancelled", .requestStop (toyEnv 12) "a" 1 "cancelled"]

/-- `a` and `c` share two attempts and have failed once each; `b` waits for `a`. -/
def groupOps : List Op :=
  toyStart [{ toyTask "a" 2 [] with budgetGroupId := "group" },
    { toyTask "c" 2 [] with budgetGroupId := "group" }, toyTask "b" 1 ["a"]] ++
    [toyClaim 11, toyCommit "a" 11 1 .failed, toyCommit "a" 11 2 .exited,
      toyClaim 12, toyCommit "c" 12 3 .failed, toyCommit "c" 12 4 .exited]

/-- A dependent that was cancelled itself stays so, and one behind a task whose
group has used its attempts stays queued. -/
theorem dependents_not_blocked :
    (∃ u ∈ (toyDB.run (State.fresh {}) cancelledOps).tasks.rows,
      ∃ t ∈ (toyDB.run (State.fresh {}) cancelledOps).tasks.rows,
        u.status = .cancelled ∧ (toyDB.run (State.fresh {}) cancelledOps).taskActive u.id = 0 ∧
          u.id ∈ t.dependencies ∧ t.status = .cancelled) ∧
    ∃ u ∈ (toyDB.run (State.fresh {}) groupOps).tasks.rows,
      ∃ t ∈ (toyDB.run (State.fresh {}) groupOps).tasks.rows,
        u.status = .failed ∧ (toyDB.run (State.fresh {}) groupOps).taskActive u.id = 0 ∧
          (toyDB.run (State.fresh {}) groupOps).attemptsExhausted u.budgetGroupId u.maxAttempts ∧
          u.id ∈ t.dependencies ∧ t.status = .queued := by
  decide +kernel

end Orchestrator.Store
