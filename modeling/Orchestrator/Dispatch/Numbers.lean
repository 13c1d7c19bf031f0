import Orchestrator.Invariants.Budget
import Orchestrator.Invariants.Statuses

/-!
# Numbering of attempts and segments

Attempt numbers count within the budget group and segment numbers within the
attempt, so the next number is always free; and the rows a resume looks up
exist. With ids that are fresh, a claim then meets no constraint of the schema.
-/
namespace Orchestrator.Store
open Library

/-- The statuses of a task that has had an attempt. -/
def TaskStatus.attempted : TaskStatus → Bool
  | .queued | .ready | .cancelled | .blockedDependency => false
  | _ => true

structure Numbered (c : Core) : Prop where
  attemptNo : ∀ a ∈ c.attempts, ∀ t ∈ c.tasks, t.id = a.taskId →
    a.attemptNo ≤ c.groupAttempts t.budgetGroupId
  segmentNo : ∀ g ∈ c.segments, g.segmentNo ≤ c.attemptSegments g.attemptId
  attemptOf : ∀ g ∈ c.segments, ∃ a ∈ c.attempts, a.id = g.attemptId ∧ a.taskId = g.taskId
  started : ∀ t ∈ c.tasks, t.status.attempted = true → ∃ g ∈ c.segments, g.taskId = t.id
  launch : ∀ t ∈ c.tasks, ∀ u ∈ c.tasks, t.hostLaunchId = u.hostLaunchId → t.runId = u.runId
  active : ∀ t ∈ c.tasks, 0 < t.maxActiveMs

theorem Attempt.static_eq {a b : Attempt} (h : a.static = b.static) :
    a.id = b.id ∧ a.taskId = b.taskId ∧ a.attemptNo = b.attemptNo :=
  ⟨(congrArg Attempt.id h :), (congrArg Attempt.taskId h :), (congrArg Attempt.attemptNo h :)⟩

theorem Segment.static_segmentNo {g k : Segment} (h : g.static = k.static) :
    g.segmentNo = k.segmentNo := (congrArg Segment.segmentNo h :)

/-! ## Tasks that have had an attempt -/

section Started
variable {d : DB} {op : Op} {x : Option String} {c c' : Core}

/-- Only a claim makes a task attempted that was not. -/
theorem Arc.attempted {s s' : TaskStatus} (h : Arc s s') (hs : s'.attempted = true) :
    s.attempted = true ∨ s' = .running := by
  cases h with
  | claim => exact .inr rfl
  | resume h => rcases h with rfl | rfl <;> exact .inl rfl
  | accept => exact .inl rfl
  | reject => exact .inl rfl
  | cancel => cases hs
  | retry => cases hs
  | stop h | lose h | exit h =>
    left; revert h; cases s <;> simp [TaskStatus.busy, TaskStatus.attempted]

theorem Turn.started {st : TaskStatus} (h : Turn st c c') {u : Task} (hu : u ∈ c'.tasks)
    (ha : u.status.attempted = true) : (∃ g ∈ c'.segments, g.taskId = u.id) ∨
      ∃ t ∈ c.tasks, t.id = u.id ∧ t.status.attempted = true := by
  rcases h.turned u hu with hold | ⟨hus, harc⟩
  · exact .inr ⟨u, hold, rfl, ha⟩
  · obtain ⟨t, ht, hst⟩ := h.toKept.task_of hu
    have hid := Task.static_id hst
    rw [hus] at ha
    rcases (harc t ht hid).attempted ha with hatt | hrun
    · exact .inr ⟨t, ht, hid, hatt⟩
    · rcases h.launched hrun u hu with hold | hg
      · exact .inr ⟨u, hold, rfl, by rw [hus]; exact ha⟩
      · exact .inl hg

/-- A task attempted after a move was attempted before, or has a segment now. -/
theorem Move.started (hs : Slots d.toPlatform c) (hm : Move d op x c c') {u : Task}
    (hu : u ∈ c'.tasks) (ha : u.status.attempted = true) : (∃ g ∈ c'.segments, g.taskId = u.id) ∨
      ∃ t ∈ c.tasks, t.id = u.id ∧ t.status.attempted = true := by
  obtain ⟨st, c₁, hturn, hclose, -⟩ := hm.split hs
  cases hclose with
  | leave => exact hturn.started hu ha
  | release =>
    obtain ⟨seq, hrows, -⟩ := (releaseReady_released c₁).rows
    rw [Table.mem_def, hrows] at hu
    obtain ⟨v, hv, rfl⟩ := List.mem_map.mp hu
    rw [(releaseReady_released c₁).segments]
    split at ha
    · cases ha
    · rename_i hq
      rw [if_neg hq]
      exact hturn.started hv ha
  | block =>
    obtain ⟨v, hv, rfl⟩ := mem_blockFailedDependencies.mp hu
    by_cases hd : Doomed c₁.tasks v
    · rw [afterBlocking_doomed hd] at ha; cases ha
    · rw [afterBlocking_spared hd] at ha ⊢
      exact hturn.started hv ha

end Started

/-! ## Moves -/

section Moves
variable {d : DB} {op : Op} {x : Option String} {c c' : Core}

theorem Numbered.kept (h : Numbered c) (hk : Kept c c') :
    (∀ t ∈ c'.tasks, ∀ u ∈ c'.tasks, t.hostLaunchId = u.hostLaunchId → t.runId = u.runId) ∧
      ∀ t ∈ c'.tasks, 0 < t.maxActiveMs := by
  constructor
  · intro t ht u hu hl
    obtain ⟨t₀, ht₀, htt⟩ := hk.task_of ht
    obtain ⟨u₀, hu₀, huu⟩ := hk.task_of hu
    rw [← Task.static_hostLaunchId htt, ← Task.static_hostLaunchId huu] at hl
    rw [← Task.static_runId htt, ← Task.static_runId huu]
    exact h.launch t₀ ht₀ u₀ hu₀ hl
  · intro t ht
    obtain ⟨t₀, ht₀, htt⟩ := hk.task_of ht
    rw [← Task.static_maxActiveMs htt]
    exact h.active t₀ ht₀

theorem Numbered.started_of (h : Numbered c) (hs : Slots d.toPlatform c) (hm : Move d op x c c') :
    ∀ u ∈ c'.tasks, u.status.attempted = true → ∃ g ∈ c'.segments, g.taskId = u.id := by
  intro u hu ha
  rcases hm.started hs hu ha with hg | ⟨t, ht, hid, hatt⟩
  · exact hg
  · obtain ⟨g, hg, hgt⟩ := h.started t ht hatt
    obtain ⟨k, hk, hkg⟩ := hm.kept.segment hg
    exact ⟨k, hk, (Segment.static_taskId hkg).trans (hgt.trans hid)⟩

/-- Attempts that keep their rows keep their numbers within the group's count. -/
theorem Numbered.attemptNo_of (h : Numbered c) (hk : Kept c c')
    (ha : c'.attempts.rows.map Attempt.static = c.attempts.rows.map Attempt.static) :
    ∀ a ∈ c'.attempts, ∀ t ∈ c'.tasks, t.id = a.taskId →
      a.attemptNo ≤ c'.groupAttempts t.budgetGroupId := by
  intro a' ha' t' ht' hid
  obtain ⟨a, ham, -, hst⟩ := mem_of_map_eq ha ha'
  obtain ⟨t, ht, htt⟩ := hk.task_of ht'
  obtain ⟨-, h2, h3⟩ := Attempt.static_eq hst
  rw [groupAttempts_eq hk ha, ← Task.static_budgetGroupId htt, h3]
  exact h.attemptNo a ham t ht (by rw [Task.static_id htt, hid, h2])

/-- Every attempt row is still there after a step. -/
theorem Grows.attemptOf {c c' : Core} (hk : Grows c c') {id taskId : String}
    (h : ∃ a ∈ c.attempts, a.id = id ∧ a.taskId = taskId) :
    ∃ a ∈ c'.attempts, a.id = id ∧ a.taskId = taskId := by
  obtain ⟨a, ha, rfl, rfl⟩ := h
  obtain ⟨a', ha', hst⟩ := mem_of_map_prefix hk.attempts ha
  obtain ⟨h1, h2, -⟩ := Attempt.static_eq hst
  exact ⟨a', ha', h1, h2⟩

theorem attemptSegments_eq (c : Core) (id : String) : c.attemptSegments id =
    (c.segments.rows.map Segment.static).countP (fun g => g.attemptId = id) := by
  rw [List.countP_map]; rfl

theorem Numbered.booked (h : Numbered c) (hs : Slots d.toPlatform c)
    (hm : Move d op x c c') (hb : Booked op c c') : Numbered c' := by
  have hk := hm.kept
  have hsegs : c'.segments.rows.map Segment.static = c.segments.rows.map Segment.static := by
    obtain ⟨φ, hr, hφ⟩ := hb.segments
    rw [hr, List.map_map]
    exact List.map_congr_left fun g hg => (hφ g hg).1
  obtain ⟨hlaunch, hactive⟩ := h.kept hk
  refine ⟨h.attemptNo_of hk hb.attempts, fun g' hg' => ?_, fun g' hg' => ?_, h.started_of hs hm,
    hlaunch, hactive⟩
  · obtain ⟨g, hg, -, hst⟩ := mem_of_map_eq hsegs hg'
    rw [attemptSegments_eq, hsegs, ← attemptSegments_eq, Segment.static_attemptId hst,
      Segment.static_segmentNo hst]
    exact h.segmentNo g hg
  · obtain ⟨g, hg, -, hst⟩ := mem_of_map_eq hsegs hg'
    rw [Segment.static_attemptId hst, Segment.static_taskId hst]
    exact hk.toGrows.attemptOf (h.attemptOf g hg)

/-- Where a claim puts its segment: one past the segments of an attempt of the task. -/
theorem place_spec {t : Task} {env : Env} {place : Placement} {c₁ : Core}
    (hplace : c.place env t = .ok place) (hattempt : c.startAttempt t place = .ok c₁) :
    place.segmentNo ≤ c.attemptSegments place.attemptId + 1 ∧
      ∃ a ∈ c₁.attempts, a.id = place.attemptId ∧ a.taskId = t.id := by
  rcases startAttempt_cases hplace hattempt with ⟨-, hres, rfl⟩ | ⟨-, rfl, -, attempts, hi, rfl⟩
  · simp only [Core.placeResume, bind_ok_iff, expect_ok, require_ok, exists_const,
      Except.ok.injEq] at hres
    obtain ⟨a, ha, -, rfl⟩ := hres
    have hm := List.argmax_mem ha
    simp only [List.mem_filter, decide_eq_true_eq] at hm
    exact ⟨le_refl _, (setAttemptStatus_kept .running).toGrows.attemptOf ⟨a, hm.1, rfl, hm.2⟩⟩
  · exact ⟨Nat.le_add_left _ _, _, (Table.mem_insert hi).mpr (.inr rfl), rfl, rfl⟩

theorem Numbered.claim (h : Numbered c) (hs : Slots d.toPlatform c) (hm : Move d op x c c')
    (hc : Claim d op c c') : Numbered c' := by
  obtain @⟨c₁, c₂, env, hostId, epoch, -, t, place, -, ht, -, hplace, -, hattempt, hsegment⟩ := hc
  have hk := claim_kept hattempt hsegment
  obtain ⟨hlaunch, hactive⟩ := h.kept hk
  obtain ⟨-, -, -, hsegs⟩ := startAttempt_frame hattempt
  have hstart := startAttempt_cases hplace hattempt
  obtain ⟨hno, a₀, ha₀, hida, hta⟩ := place_spec hplace hattempt
  obtain ⟨segments, hi, rfl⟩ := startSegment_cases hsegment
  rw [hsegs] at hi
  have hcount : ∀ id, (Core.setTaskStatus { c₁ with segments := segments } t.id
      .running).attemptSegments id =
      c.attemptSegments id + if place.attemptId = id then 1 else 0 := by
    intro id
    refine (Table.count_insert hi).trans ?_
    by_cases hp : place.attemptId = id <;>
      simp [DB.claimedSegment, Core.attemptSegments, hp]
  refine ⟨?_, fun g hg => ?_, fun g hg => ?_, h.started_of hs hm, hlaunch, hactive⟩
  · rcases hstart with ⟨-, -, rfl⟩ | ⟨-, rfl, -, attempts, hia, rfl⟩
    · exact h.attemptNo_of hk (setAttemptStatus_attempts _ _ _)
    · intro a ha u hu hid
      have hgroup := groupAttempts_insert hk ht hia rfl rfl u.budgetGroupId
      rw [hgroup]
      rcases (Table.mem_insert hia).mp ha with ha | rfl
      · obtain ⟨v, hv, hst⟩ := hk.task_of hu
        have hle := h.attemptNo a ha v hv ((Task.static_id hst).trans hid)
        rw [Task.static_budgetGroupId hst] at hle
        omega
      · -- the new attempt takes the number its group's count has just reached
        have hst := static_of_kept hk ht hu hid
        rw [Task.static_budgetGroupId hst, if_pos rfl]
  · rw [hcount]
    rcases (Table.mem_insert hi).mp hg with hg | rfl
    · exact (h.segmentNo g hg).trans (Nat.le_add_right _ _)
    · simpa [DB.claimedSegment] using hno
  · rcases (Table.mem_insert hi).mp hg with hg | rfl
    · exact hk.toGrows.attemptOf (h.attemptOf g hg)
    · exact ⟨a₀, ha₀, hida, hta⟩

theorem Numbered.submitted (h : Numbered c)
    (howned : ∀ a ∈ c.attempts, ∃ t ∈ c.tasks, t.id = a.taskId)
    (hs : Submitted d c c') : Numbered c' := by
  obtain ⟨p, launchId, stamp, hshape, hfresh, hi⟩ := hs.inserted
  obtain ⟨new, hr, hrow, -⟩ := hi.rows
  have hold : ∀ t ∈ c.tasks, t ∈ c'.tasks := fun t ht => by
    rw [Table.mem_def, hr]; exact List.mem_append_left _ ht
  have hmem : ∀ t ∈ c'.tasks, t ∈ c.tasks ∨ (t.hostLaunchId = launchId ∧ t.runId = p.run.id ∧
      t.status.attempted = false ∧ 0 < t.maxActiveMs) := by
    intro t ht
    rw [Table.mem_def, hr, List.mem_append] at ht
    refine ht.imp_right fun ht => ?_
    obtain ⟨spec, hspec, hadm⟩ := forall₂_right hrow ht
    have hact : 0 < spec.active := by
      unfold TaskSpec.active defaultSegmentActiveMs; split <;> omega
    rcases hadm with ⟨hd, n, -, -, rfl⟩ | ⟨hd, rfl⟩ <;>
      exact ⟨rfl, hshape.runId spec hspec, by simp [DB.taskRow, hd, TaskStatus.attempted], hact⟩
  refine ⟨fun a ha t ht hid => ?_, fun g hg => ?_, fun g hg => ?_, fun t ht hatt => ?_,
    fun t ht u hu hl => ?_, fun t ht => ?_⟩
  · rw [groupAttempts_inserted howned hi]
    rw [hi.attempts] at ha
    obtain ⟨u, hu, huid⟩ := howned a ha
    obtain rfl : t = u := Table.eq_of_key ht (hold u hu) (hid.trans huid.symm)
    exact h.attemptNo a ha t hu hid
  · rw [hi.segments] at hg
    rw [Core.attemptSegments, hi.segments]
    exact h.segmentNo g hg
  · rw [hi.segments] at hg
    rw [hi.attempts]
    exact h.attemptOf g hg
  · rcases hmem t ht with ht | ⟨-, -, hnew, -⟩
    · rw [hi.segments]; exact h.started t ht hatt
    · rw [hnew] at hatt; cases hatt
  · rcases hmem t ht with ht | ⟨htl, htr, -, -⟩ <;> rcases hmem u hu with hu | ⟨hul, hur, -, -⟩
    · exact h.launch t ht u hu hl
    · exact absurd (hl.trans hul) (hfresh t ht)
    · exact absurd (hl.symm.trans htl) (hfresh u hu)
    · rw [htr, hur]
  · rcases hmem t ht with ht | ⟨-, -, -, hpos⟩
    · exact h.active t ht
    · exact hpos

end Moves

theorem numbered_fresh (limits : ConcurrencyLimits) : Numbered (Core.fresh limits) := by
  refine ⟨?_, ?_, ?_, ?_, ?_, ?_⟩ <;> exact fun _ h => absurd h (Table.not_mem_empty _)

theorem numbered_of_reachable {d : DB} {limits : ConcurrencyLimits} {s : State}
    (h : d.Reachable limits s) : Numbered s.toCore := by
  refine And.right (b := Numbered s.toCore) (core_invariant
    (I := fun c => (Slots d.toPlatform c ∧ Budget c) ∧ Numbered c)
    ⟨⟨slots_fresh _ limits, budget_fresh limits⟩, numbered_fresh limits⟩ ?_ h)
  rintro op x c c' ⟨⟨hslots, hbudget⟩, hnum⟩ hstep
  refine ⟨⟨hslots.step hstep, hbudget.step hstep⟩, ?_⟩
  cases hstep with
  | submit hs => exact hnum.submitted hbudget.owned hs
  | move hm =>
    rcases hm.booked with hb | hc
    · exact hnum.booked hslots hm hb
    · exact hnum.claim hslots hm hc

end Orchestrator.Store
