import Orchestrator.Invariants.Steps

/-!
# Slot safety

An active segment keeps its task in a status no operation claims, cancels or
retries from, so a task owns at most one active segment and its payload, which
decides the provider and the workspace the segment is counted under, is fixed
while the segment is active. The counts then only grow where `ClaimReady` has
just compared them with their limits.
-/
namespace Orchestrator.Store
open Library

/-- The statuses of a task that owns an active segment. -/
def TaskStatus.busy : TaskStatus → Bool
  | .running | .stopping | .unknown => true
  | _ => false

theorem TaskStatus.idle_of_claimable {st : TaskStatus} (h : st.claimable = true) :
    st.busy = false := by
  cases st <;> first | rfl | cases h

structure Slots (p : Platform) (c : Core) : Prop where
  owned : ∀ g ∈ c.segments, ∃ t ∈ c.tasks, t.id = g.taskId
  busy : ∀ g ∈ c.segments, g.active = true → ∀ t ∈ c.tasks, t.id = g.taskId →
    t.status.busy = true
  single : ∀ taskId, c.taskActive taskId ≤ 1
  total : c.activeCount ≤ c.limits.global
  provider : ∀ k, c.occupied p.provider k ≤ c.limits.provider k
  workspace : ∀ k, c.occupied p.workspace k ≤ c.limits.workspace k

theorem taskActive_eq_zero {c : Core} {taskId : String} : c.taskActive taskId = 0 ↔
    ∀ g ∈ c.segments, g.active = true → g.taskId ≠ taskId := by
  simp only [Core.taskActive, Table.count_eq_zero]
  constructor
  · intro h g hg ha hid
    have := h g hg
    simp [ha, hid] at this
  · intro h g hg
    by_cases hid : g.taskId = taskId
    · have : ¬ g.active = true := fun ha => h g hg ha hid
      simp [this]
    · simp [hid]

/-- At most one active segment, in terms of rows. -/
theorem Slots.eq_of_active {p : Platform} {c : Core} (h : Slots p c) {g k : Segment}
    (hg : g ∈ c.segments) (hk : k ∈ c.segments) (hga : g.active = true) (hka : k.active = true)
    (hid : g.taskId = k.taskId) : g = k := by
  by_contra hne
  have hrest : 0 < c.segments.count (fun x => (x.taskId = g.taskId && x.active) && x.id ≠ g.id) :=
    Table.count_pos.mpr ⟨k, hk, by
      have : k.id ≠ g.id := fun h => hne (Table.eq_of_key hk hg h).symm
      simp [hid, hka, this]⟩
  have hlt : c.segments.count (fun x => (x.taskId = g.taskId && x.active) && x.id ≠ g.id) <
      c.taskActive g.taskId :=
    Table.count_lt hg (fun x _ hx => by simp_all) (by simp [hga]) (by simp)
  have := h.single g.taskId
  omega

section Rewrites
variable {p : Platform} {c c' : Core}

/-- Where active segments do not look, tasks may change freely. -/
theorem Slots.mapTasks (h : Slots p c) (hl : c'.limits = c.limits)
    (hs : c'.segments = c.segments) (ψ : Task → Task) (hr : c'.tasks.rows = c.tasks.rows.map ψ)
    (hid : ∀ t ∈ c.tasks, (ψ t).id = t.id)
    (hψ : ∀ t ∈ c.tasks, t.status.busy = true →
      (∃ g ∈ c.segments, g.active = true ∧ g.taskId = t.id) →
      (ψ t).status.busy = true ∧ (ψ t).adapterPayload = t.adapterPayload) : Slots p c' := by
  have hmem : ∀ t ∈ c.tasks, ψ t ∈ c'.tasks := fun t ht => by
    rw [Table.mem_def, hr]; exact List.mem_map_of_mem ht
  have hocc : ∀ key k, c'.occupied key k = c.occupied key k := by
    intro key k
    rw [Core.occupied, hs]
    refine Table.count_congr fun g hg => ?_
    by_cases ha : g.active = true
    · obtain ⟨t, ht, htid⟩ := h.owned g hg
      obtain ⟨-, hpay⟩ := hψ t ht (h.busy g hg ha t ht htid) ⟨g, hg, ha, htid.symm⟩
      have h1 : c'.tasks.find? g.taskId = some (ψ t) :=
        Table.find?_eq_some.mpr ⟨hmem t ht, (hid t ht).trans htid⟩
      have h2 : c.tasks.find? g.taskId = some t := Table.find?_eq_some.mpr ⟨ht, htid⟩
      rw [h1, h2, Option.any_some, Option.any_some, hpay]
    · simp [ha]
  refine ⟨fun g hg => ?_, fun g hg ha t' ht' hid' => ?_, fun taskId => ?_, ?_, fun k => ?_,
    fun k => ?_⟩
  · rw [hs] at hg
    obtain ⟨t, ht, htid⟩ := h.owned g hg
    exact ⟨ψ t, hmem t ht, (hid t ht).trans htid⟩
  · rw [hs] at hg
    rw [Table.mem_def, hr] at ht'
    obtain ⟨t, ht, rfl⟩ := List.mem_map.mp ht'
    rw [hid t ht] at hid'
    exact (hψ t ht (h.busy g hg ha t ht hid') ⟨g, hg, ha, hid'.symm⟩).1
  · rw [Core.taskActive, hs]; exact h.single taskId
  · rw [Core.activeCount, hs, hl]; exact h.total
  · rw [hocc, hl]; exact h.provider k
  · rw [hocc, hl]; exact h.workspace k

/-- Segments may only leave the active statuses. -/
theorem Slots.mapSegments (h : Slots p c) (hl : c'.limits = c.limits) (ht : c'.tasks = c.tasks)
    (φ : Segment → Segment) (hr : c'.segments.rows = c.segments.rows.map φ)
    (hφ : ∀ g ∈ c.segments, (φ g).taskId = g.taskId ∧ ((φ g).active = true → g.active = true)) :
    Slots p c' := by
  have hcount : ∀ q : Segment → Bool, c'.segments.count q = c.segments.count (q ∘ φ) := by
    intro q
    rw [Table.count, hr, List.countP_map]; rfl
  have hocc : ∀ key k, c'.occupied key k ≤ c.occupied key k := by
    intro key k
    rw [Core.occupied, hcount, Core.occupied]
    refine Table.count_mono fun g hg hq => ?_
    obtain ⟨h1, h2⟩ := hφ g hg
    simp only [Function.comp_apply, Bool.and_eq_true, h1, ht] at hq ⊢
    exact ⟨h2 hq.1, hq.2⟩
  refine ⟨fun g' hg' => ?_, fun g' hg' ha t htm hid => ?_, fun taskId => ?_, ?_, fun k => ?_,
    fun k => ?_⟩
  · rw [Table.mem_def, hr] at hg'
    obtain ⟨g, hg, rfl⟩ := List.mem_map.mp hg'
    rw [ht, (hφ g hg).1]
    exact h.owned g hg
  · rw [Table.mem_def, hr] at hg'
    obtain ⟨g, hg, rfl⟩ := List.mem_map.mp hg'
    rw [ht] at htm
    exact h.busy g hg ((hφ g hg).2 ha) t htm (hid.trans (hφ g hg).1)
  · refine le_trans ?_ (h.single taskId)
    rw [Core.taskActive, hcount, Core.taskActive]
    refine Table.count_mono fun g hg hq => ?_
    simp only [Function.comp_apply, Bool.and_eq_true, (hφ g hg).1] at hq ⊢
    exact ⟨hq.1, (hφ g hg).2 hq.2⟩
  · rw [hl]
    refine le_trans ?_ h.total
    rw [Core.activeCount, hcount, Core.activeCount]
    exact Table.count_mono fun g hg hq => (hφ g hg).2 hq
  · rw [hl]; exact le_trans (hocc _ k) (h.provider k)
  · rw [hl]; exact le_trans (hocc _ k) (h.workspace k)

theorem Slots.quiet (h : Slots p c) (hq : Quiet c c') : Slots p c' := by
  obtain ⟨φ, hr, hφ⟩ := hq.segments
  refine h.mapSegments hq.limits hq.tasks φ hr fun g hg => ?_
  obtain ⟨h1, -, h3⟩ := hφ g hg
  exact ⟨Segment.static_taskId h1, fun ha => h3 ▸ ha⟩

theorem Slots.setTask (h : Slots p c) {taskId : String} {f : Task → Task}
    {hf : ∀ t, (f t).id = t.id}
    (hp : (∀ g ∈ c.segments, g.active = true → g.taskId ≠ taskId) ∨
      ∀ t : Task, (f t).status.busy = true ∧ (f t).adapterPayload = t.adapterPayload) :
    Slots p (c.setTask taskId f hf) := by
  refine h.mapTasks rfl rfl (Table.patch (fun t => t.id = taskId) f) rfl
    (fun t _ => Table.patch_field Task.id hf t) fun t _ hb ⟨g, hg, ha, hid⟩ => ?_
  unfold Table.patch
  split
  · rename_i hsel
    rcases hp with hp | hp
    · exact absurd (hid.trans (by simpa using hsel)) (hp g hg ha)
    · exact hp t
  · exact ⟨hb, rfl⟩

theorem Slots.setTaskStatus (h : Slots p c) {taskId : String} {st : TaskStatus}
    (hp : (∀ g ∈ c.segments, g.active = true → g.taskId ≠ taskId) ∨ st.busy = true) :
    Slots p (c.setTaskStatus taskId st) :=
  h.setTask (hp.imp_right fun hb _ => ⟨hb, rfl⟩)

theorem Slots.enqueue (h : Slots p c) {taskId : String} {st : TaskStatus}
    (hp : ∀ g ∈ c.segments, g.active = true → g.taskId ≠ taskId) :
    Slots p (c.enqueue taskId st) := by
  have hs : Slots p { c with nextReadySequence := c.nextReadySequence + 1 } :=
    h.mapTasks rfl rfl id (by simp) (fun _ _ => rfl) fun _ _ hb _ => ⟨hb, rfl⟩
  exact hs.setTask (.inl hp)

theorem Slots.setAttemptStatus (h : Slots p c) {attemptId : String} {st : AttemptStatus} :
    Slots p (c.setAttemptStatus attemptId st) :=
  h.mapTasks rfl rfl id (by simp) (fun _ _ => rfl) fun _ _ hb _ => ⟨hb, rfl⟩

theorem Slots.released {q : Task → Bool} (h : Slots p c)
    (hq : ∀ t, q t = true → t.status = .queued) (hr : Released c c' q) : Slots p c' := by
  obtain ⟨seq, hrows, -⟩ := hr.rows
  refine h.mapTasks hr.limits hr.segments _ hrows (fun t _ => by split <;> rfl) fun t _ hb _ => ?_
  have : ¬ q t = true := fun h => by rw [hq t h] at hb; cases hb
  rw [if_neg this]
  exact ⟨hb, rfl⟩

theorem releasable_queued {c : Core} {t : Task} (h : c.releasable t = true) :
    t.status = .queued := by
  simp only [Core.releasable, Bool.and_eq_true, decide_eq_true_eq] at h
  exact h.1

theorem Slots.releaseReady (h : Slots p c) : Slots p (releaseReady c) :=
  h.released (fun _ => releasable_queued) (releaseReady_released c)

theorem Slots.block (h : Slots p c) : Slots p (blockFailedDependencies c) := by
  refine h.mapTasks rfl rfl _ (blockFailedDependencies_rows c)
    (fun t _ => afterBlocking_field Task.id (fun _ => rfl) _ t) fun t _ hb _ => ?_
  have : ¬ Doomed c.tasks t := fun hd => by
    have := hd.blockable
    cases hst : t.status <;> simp_all [TaskStatus.busy, TaskStatus.blockable]
  rw [afterBlocking_spared this]
  exact ⟨hb, rfl⟩

end Rewrites

/-! ## Claims -/

theorem slotBound_le (limits : ConcurrencyLimits) (slots : Int) :
    slotBound limits slots ≤ limits.global := by
  unfold slotBound; split <;> omega

section Claim
variable {p : Platform} {c c' : Core} {t : Task} {g : Segment}

/-- Counting one more active segment of `t` stays within the limit just checked. -/
theorem occupied_insert {segments : Table Segment.id}
    (hi : c.segments.insert? g = some segments) (ht : t ∈ c.tasks) (hid : g.taskId = t.id)
    (key : String → String) (limit : String → Nat) (hle : ∀ k, c.occupied key k ≤ limit k)
    (hcap : c.occupied key (key t.adapterPayload) < limit (key t.adapterPayload)) (k : String) :
    { c with segments := segments }.occupied key k ≤ limit k := by
  have hfind : c.tasks.find? g.taskId = some t := Table.find?_eq_some.mpr ⟨ht, hid.symm⟩
  have := hle k
  change segments.count (fun g => g.active &&
    (c.tasks.find? g.taskId).any (fun t => key t.adapterPayload = k)) ≤ limit k
  rw [Table.count_insert hi, hfind, Option.any_some]
  rw [Core.occupied] at this hcap
  by_cases hk : key t.adapterPayload = k
  · subst hk
    split <;> omega
  · rw [if_neg (by simp [hk])]
    omega

theorem Slots.claim {segments : Table Segment.id} (h : Slots p c)
    (ht : t ∈ c.tasks) (hid : g.taskId = t.id) (hc : t.status.claimable = true)
    (hcap : c.hasCapacity p t = true) (hfree : c.activeCount < c.limits.global)
    (hi : c.segments.insert? g = some segments) :
    Slots p ({ c with segments := segments }.setTaskStatus t.id .running) := by
  have hrest : ∀ k ∈ c.segments, k.active = true → k.taskId ≠ t.id := by
    intro k hk ha heq
    have := h.busy k hk ha t ht heq.symm
    cases hst : t.status <;> simp_all [TaskStatus.busy, TaskStatus.claimable]
  simp only [Core.hasCapacity, Bool.and_eq_true, decide_eq_true_eq] at hcap
  have hmem : ∀ k ∈ segments, k ∈ c.segments ∨ k = g := fun k hk => (Table.mem_insert hi).mp hk
  -- the status of `t` is set in the same step, so only the other rows are compared with `c`
  have hstatus : ∀ u ∈ (c.setTaskStatus t.id .running).tasks, u.id = t.id →
    u.status = .running := by
    intro u hu huid
    obtain ⟨v, -, -, rfl⟩ | ⟨-, hne⟩ := Core.mem_setTaskStatus.mp hu
    · rfl
    · exact absurd huid hne
  have hset : Slots p (c.setTaskStatus t.id .running) := h.setTaskStatus (.inl hrest)
  have hocc : ∀ key k,
    ({ c with segments := segments }.setTaskStatus t.id .running).occupied key k =
      { c with segments := segments }.occupied key k := by
    intro key k
    refine Table.count_congr fun k _ => ?_
    rw [Core.setTaskStatus_tasks, Table.find?_update, Option.any_map]
    congr 2
    funext u
    rw [Table.patch_field Task.adapterPayload (by simp)]
  refine ⟨fun k hk => ?_, fun k hk ha u hu huid => ?_, fun taskId => ?_, ?_, fun k => ?_,
    fun k => ?_⟩
  · rcases hmem k hk with hk | rfl
    · exact hset.owned k hk
    · have hk : Kept c (c.setTaskStatus t.id .running) := setTaskStatus_kept .running
      obtain ⟨u, hu, hst⟩ := hk.task ht
      exact ⟨u, hu, by rw [Task.static_id hst, hid]⟩
  · rcases hmem k hk with hk | rfl
    · exact hset.busy k hk ha u hu huid
    · rw [hstatus u hu (huid.trans hid)]; rfl
  · change segments.count _ ≤ 1
    rw [Table.count_insert hi]
    by_cases hk : g.taskId = taskId
    · have hzero : c.taskActive taskId = 0 :=
        taskActive_eq_zero.mpr fun k hkm ha => by rw [← hk, hid]; exact hrest k hkm ha
      rw [Core.taskActive] at hzero
      rw [hzero]; split <;> omega
    · have := h.single taskId
      rw [Core.taskActive] at this
      rw [if_neg (by simp [hk])]; omega
  · change segments.count _ ≤ c.limits.global
    rw [Table.count_insert hi]
    rw [Core.activeCount] at hfree
    split <;> omega
  · rw [hocc]
    exact occupied_insert hi ht hid p.provider c.limits.provider h.provider hcap.1 k
  · rw [hocc]
    exact occupied_insert hi ht hid p.workspace c.limits.workspace h.workspace hcap.2 k

end Claim

/-! ## Steps and runs -/

theorem slots_fresh (p : Platform) (limits : ConcurrencyLimits) : Slots p (Core.fresh limits) :=
  ⟨fun _ h => absurd h (Table.not_mem_empty _), fun _ h => absurd h (Table.not_mem_empty _),
    fun _ => by simp [Core.taskActive, Core.fresh], by simp [Core.activeCount, Core.fresh],
    fun _ => by simp [Core.occupied, Core.fresh], fun _ => by simp [Core.occupied, Core.fresh]⟩

theorem Slots.sweep {p : Platform} {c : Core} (h : Slots p c) : Slots p c.markStoppingUnknown := by
  have hq : Quiet c (c.updateSegments (fun g => g.status = .stopping)
      (fun g => { g with status := .unknown })) := by
    refine Quiet.updateSegments fun g _ hp => ⟨rfl, rfl, ?_⟩
    rw [Segment.active_iff.mpr (by simp), Segment.active_iff.mpr]
    intro he
    rw [decide_eq_true_eq, he] at hp
    cases hp
  refine (h.quiet hq).mapTasks rfl rfl _ rfl
    (fun t _ => Table.patch_field Task.id (by simp) t) fun t _ hb _ => ?_
  unfold Table.patch
  split
  · exact ⟨rfl, rfl⟩
  · exact ⟨hb, rfl⟩

theorem Slots.settle {p : Platform} {c : Core} {g : Segment} (h : Slots p c) (hg : g ∈ c.segments)
    (ha : g.active = true) (used : Int) : Slots p (c.settle g.id used) ∧
      ∀ k ∈ (c.settle g.id used).segments, k.active = true → k.taskId ≠ g.taskId := by
  constructor
  · refine h.mapSegments rfl rfl _ rfl fun k _ => ?_
    unfold Table.patch
    split
    · exact ⟨rfl, fun hk => absurd hk (by simp [Segment.active, SegmentStatus.active])⟩
    · exact ⟨rfl, id⟩
  · intro k hk hka heq
    obtain ⟨k₀, hk₀, rfl⟩ := (Table.mem_update (h := by simp)).mp hk
    unfold Table.patch at hka heq
    split at hka
    · simp [Segment.active, SegmentStatus.active] at hka
    · rename_i hsel
      rw [if_neg hsel] at heq
      obtain rfl := h.eq_of_active hk₀ hg hka ha heq
      simp at hsel

theorem Slots.exited {d : DB} {c : Core} {g : Segment} {t : Task} {e : Event}
    (h : Slots d.toPlatform c) (hg : g ∈ c.segments) (ha : g.active = true)
    (hid : t.id = g.taskId) :
    Slots d.toPlatform (d.exited c g t e) := by
  obtain ⟨h₁, hfree⟩ := h.settle hg ha (settledMs e.activeMs g.reservation.grantedMs)
  exact h₁.setAttemptStatus.setTaskStatus (.inl (hid ▸ hfree))

/-- Only a task in a busy status has an active segment. -/
theorem Slots.idle {p : Platform} {c : Core} (h : Slots p c) {t : Task} (ht : t ∈ c.tasks)
    (hb : t.status.busy = false) : ∀ g ∈ c.segments, g.active = true → g.taskId ≠ t.id := by
  intro g hg ha heq
  rw [h.busy g hg ha t ht heq.symm] at hb
  cases hb

theorem Slots.rejected {p : Platform} {c : Core} {t : Task} {attemptId : String} (h : Slots p c)
    (ht : t ∈ c.tasks) (hs : t.status = .resultReady) : Slots p (c.rejected t.id attemptId) :=
  (h.setTaskStatus (.inl (h.idle ht (by rw [hs]; rfl)))).setAttemptStatus

theorem Slots.move {d : DB} {op : Op} {x : Option String} {c c' : Core} (h : Slots d.toPlatform c)
    (hm : Move d op x c c') : Slots d.toPlatform c' := by
  cases hm with
  | claim _ hslots hsel _ _ hattempt hsegment =>
    obtain ⟨ht, -, hc, hcap⟩ := selectReady_spec hsel
    obtain ⟨hl, -, htasks, hsegs⟩ := startAttempt_frame hattempt
    obtain ⟨segments, hi, rfl⟩ := startSegment_cases hsegment
    have h₁ : Slots d.toPlatform _ := h.mapTasks hl hsegs id (by simp [htasks]) (fun _ _ => rfl)
      fun _ _ hb _ => ⟨hb, rfl⟩
    refine h₁.claim (htasks ▸ ht) rfl hc ?_ ?_ hi
    · rw [← hcap]
      simp only [Core.hasCapacity, Core.occupied, hl, htasks, hsegs]
      rfl
    · have := slotBound_le c.limits ‹Int›
      rw [Core.activeCount, hl, hsegs]
      rw [Core.activeCount] at hslots
      omega
  | quiet hq => exact h.quiet hq
  | stopping hq => exact (h.quiet hq).setTaskStatus (.inr rfl)
  | unknown hq => exact (h.quiet hq).setAttemptStatus.setTaskStatus (.inr rfl)
  | sweep => exact h.sweep
  | exit hg ha _ hid => exact h.exited hg ha hid
  | complete hg ha _ hid => exact (h.exited hg ha hid).releaseReady
  | exhaust hg ha _ hid => exact (h.exited hg ha hid).block
  | cancel ht hs =>
    refine (h.setTaskStatus (.inl (h.idle ht ?_))).block
    revert hs; cases Task.status _ <;> simp [TaskStatus.cancellable, TaskStatus.busy]
  | accept ht hs => exact (h.setTaskStatus (.inl (h.idle ht (by rw [hs]; rfl)))).releaseReady
  | reject ht hs => exact h.rejected ht hs
  | rejectLast ht hs => exact (h.rejected ht hs).block
  | resume _ _ hidle => exact h.enqueue (taskActive_eq_zero.mp hidle)
  | @retry _ _ payload _ _ hidle =>
    have hfree := taskActive_eq_zero.mp hidle
    cases payload with
    | none => exact h.enqueue hfree
    | some payload => exact (h.setTask (.inl hfree)).enqueue hfree

theorem Slots.submitted {d : DB} {c c' : Core} (h : Slots d.toPlatform c) (hs : Submitted d c c') :
    Slots d.toPlatform c' := by
  obtain ⟨p, launchId, stamp, -, -, hi⟩ := hs.inserted
  obtain ⟨new, hr, -⟩ := hi.rows
  have hold : ∀ t ∈ c.tasks, t ∈ c'.tasks := fun t ht => by
    rw [Table.mem_def, hr]; exact List.mem_append_left _ ht
  have hfind : ∀ g ∈ c.segments, c'.tasks.find? g.taskId = c.tasks.find? g.taskId := by
    intro g hg
    obtain ⟨t, ht, hid⟩ := h.owned g hg
    rw [Table.find?_eq_some.mpr ⟨hold t ht, hid⟩, Table.find?_eq_some.mpr ⟨ht, hid⟩]
  have hocc : ∀ key k, c'.occupied key k = c.occupied key k := by
    intro key k
    rw [Core.occupied, hi.segments]
    exact Table.count_congr fun g hg => by rw [hfind g hg]
  refine ⟨fun g hg => ?_, fun g hg ha t ht hid => ?_, fun taskId => ?_, ?_, fun k => ?_,
    fun k => ?_⟩
  · rw [hi.segments] at hg
    obtain ⟨t, ht, hid⟩ := h.owned g hg
    exact ⟨t, hold t ht, hid⟩
  · rw [hi.segments] at hg
    obtain ⟨u, hu, huid⟩ := h.owned g hg
    obtain rfl : t = u := Table.eq_of_key ht (hold u hu) (hid.trans huid.symm)
    exact h.busy g hg ha t hu hid
  · rw [Core.taskActive, hi.segments]; exact h.single taskId
  · rw [Core.activeCount, hi.segments, hi.limits]; exact h.total
  · rw [hocc, hi.limits]; exact h.provider k
  · rw [hocc, hi.limits]; exact h.workspace k

theorem Slots.step {d : DB} {op : Op} {x : Option String} {c c' : Core} (h : Slots d.toPlatform c)
    (hs : Step d op x c c') : Slots d.toPlatform c' := by
  cases hs with
  | submit hs => exact h.submitted hs
  | move hm => exact h.move hm

theorem slots_of_reachable {d : DB} {limits : ConcurrencyLimits} {s : State}
    (h : d.Reachable limits s) : Slots d.toPlatform s.toCore :=
  core_invariant (slots_fresh _ limits) (fun _ _ _ _ hi hs => hi.step hs) h

theorem limits_of_reachable {d : DB} {limits : ConcurrencyLimits} {s : State}
    (h : d.Reachable limits s) : s.limits = limits :=
  core_invariant (I := fun c => c.limits = limits) rfl
    (fun _ _ _ _ hi hs => hs.grows.limits.trans hi) h

/-- After any run, the active segments are within the global limit, within the
limit of every provider and of every workspace, and no task owns two. -/
theorem slot_safety (d : DB) (limits : ConcurrencyLimits) (ops : List Op) :
    (d.run (State.fresh limits) ops).activeCount ≤ limits.global ∧
      (∀ key, (d.run (State.fresh limits) ops).occupied d.provider key ≤ limits.provider key) ∧
      (∀ key, (d.run (State.fresh limits) ops).occupied d.workspace key ≤ limits.workspace key) ∧
      ∀ taskId, (d.run (State.fresh limits) ops).taskActive taskId ≤ 1 := by
  have hr : d.Reachable limits (d.run (State.fresh limits) ops) := ⟨ops, rfl⟩
  have h := slots_of_reachable hr
  have hl := limits_of_reachable hr
  refine ⟨?_, fun key => ?_, fun key => ?_, h.single⟩
  · have := h.total; rwa [hl] at this
  · have := h.provider key; rwa [hl] at this
  · have := h.workspace key; rwa [hl] at this

end Orchestrator.Store
