import Orchestrator.Dispatch.Numbers

/-!
# The latest segment of a task

Attempts are numbered apart within their task and segments within their attempt,
so the queries for the latest segment sort by a strict order, and the active
segment of a task comes last in it.
-/
namespace Orchestrator.Store
open Library

/-- What `ORDER BY attempt_no DESC, segment_no DESC` compares. -/
def Segment.rank (g : Segment) : Nat ×ₗ Nat := toLex (g.attemptNo, g.segmentNo)

structure Ranked (c : Core) : Prop where
  numberOf : ∀ g ∈ c.segments, ∃ a ∈ c.attempts,
    a.id = g.attemptId ∧ a.taskId = g.taskId ∧ a.attemptNo = g.attemptNo
  attempts : ∀ a ∈ c.attempts, ∀ b ∈ c.attempts,
    a.taskId = b.taskId → a.attemptNo = b.attemptNo → a.id = b.id
  segments : ∀ g ∈ c.segments, ∀ k ∈ c.segments,
    g.attemptId = k.attemptId → g.segmentNo = k.segmentNo → g.id = k.id
  launched : ∀ a ∈ c.attempts, ∃ g ∈ c.segments, g.attemptId = a.id
  latest : ∀ g ∈ c.segments, g.active = true → ∀ k ∈ c.segments, k.taskId = g.taskId →
    k.rank ≤ g.rank

theorem Segment.rank_lt {g k : Segment} : k.rank < g.rank ↔
    k.attemptNo < g.attemptNo ∨ k.attemptNo = g.attemptNo ∧ k.segmentNo < g.segmentNo :=
  Prod.Lex.toLex_lt_toLex

theorem Segment.rank_eq {g k : Segment} (h : k.rank = g.rank) :
    k.attemptNo = g.attemptNo ∧ k.segmentNo = g.segmentNo := by
  have := toLex.injective h
  simpa using this

theorem Segment.static_rank {g k : Segment} (h : g.static = k.static) : g.rank = k.rank := by
  have hno : g.attemptNo = k.attemptNo := (congrArg Segment.attemptNo h :)
  rw [rank, rank, hno, Segment.static_segmentNo h]

section Latest
variable {c : Core} {taskId : String} {g : Segment} {a : Attempt}

theorem Ranked.eq_of_rank (h : Ranked c) {k : Segment} (hg : g ∈ c.segments) (hk : k ∈ c.segments)
    (hid : k.taskId = g.taskId) (hr : k.rank = g.rank) : k = g := by
  obtain ⟨hno, hseg⟩ := Segment.rank_eq hr
  obtain ⟨a, ha, haid, hat, han⟩ := h.numberOf g hg
  obtain ⟨b, hb, hbid, hbt, hbn⟩ := h.numberOf k hk
  have hab : b.id = a.id := h.attempts b hb a ha (hbt.trans (hid.trans hat.symm)) (by omega)
  exact Table.eq_of_key hk hg (h.segments k hk g hg (hbid.symm.trans (hab.trans haid)) hseg)

theorem Ranked.latestSegment_iff (h : Ranked c) : c.latestSegment taskId = some g ↔
    g ∈ c.segments ∧ g.taskId = taskId ∧
      ∀ k ∈ c.segments, k.taskId = taskId → k.rank ≤ g.rank := by
  have hmem : ∀ k : Segment, k ∈ c.segments.rows.filter (fun g => g.taskId = taskId) ↔
      k ∈ c.segments ∧ k.taskId = taskId := fun k => by
    rw [List.mem_filter, decide_eq_true_eq]; rfl
  constructor
  · intro hl
    obtain ⟨hg, hid⟩ := (hmem g).mp (List.argmax_mem hl)
    exact ⟨hg, hid, fun k hk hkid => List.le_of_mem_argmax ((hmem k).mpr ⟨hk, hkid⟩) hl⟩
  · rintro ⟨hg, hid, hmax⟩
    cases hl : c.latestSegment taskId with
    | none =>
      have hnil := List.argmax_eq_none.mp hl
      have hin := (hmem g).mpr ⟨hg, hid⟩
      rw [hnil] at hin
      cases hin
    | some k =>
      obtain ⟨hk, hkid⟩ := (hmem k).mp (List.argmax_mem hl)
      have hle : g.rank ≤ k.rank := List.le_of_mem_argmax ((hmem g).mpr ⟨hg, hid⟩) hl
      rw [h.eq_of_rank hg hk (hkid.trans hid.symm) (le_antisymm (hmax k hk hkid) hle)]

/-- The active segment of a task is its latest. -/
theorem Ranked.latest_active (h : Ranked c) (hg : g ∈ c.segments) (ha : g.active = true) :
    c.latestSegment g.taskId = some g :=
  h.latestSegment_iff.mpr ⟨hg, rfl, h.latest g hg ha⟩

/-- The latest segment belongs to the latest attempt. -/
theorem Ranked.latestAttempt (h : Ranked c) (hl : c.latestSegment taskId = some g)
    (ha : c.latestAttempt taskId = some a) : g.attemptId = a.id := by
  obtain ⟨hg, hid, hmax⟩ := h.latestSegment_iff.mp hl
  have hm := List.argmax_mem ha
  simp only [List.mem_filter, decide_eq_true_eq] at hm
  obtain ⟨k, hk, hka⟩ := h.launched a hm.1
  obtain ⟨b, hb, hbid, hbt, hbn⟩ := h.numberOf g hg
  obtain ⟨a', ha', haid, hat, han⟩ := h.numberOf k hk
  obtain rfl : a' = a := Table.eq_of_key ha' hm.1 (haid.trans hka)
  -- neither attempt is numbered above the other
  have hup : b.attemptNo ≤ a'.attemptNo := by
    refine List.le_of_mem_argmax (f := Attempt.attemptNo) ?_ ha
    simp [List.mem_filter, hbt, hid, Table.mem_def.mp hb]
  have hdown : k.rank ≤ g.rank := hmax k hk (hat.symm.trans hm.2)
  have hno : ¬ g.attemptNo < k.attemptNo := fun hlt =>
    absurd (Segment.rank_lt.mpr (.inl hlt)) (not_lt.mpr hdown)
  rw [← hbid]
  exact h.attempts b hb a' ha' (hbt.trans (hid.trans hm.2.symm)) (by omega)

end Latest

/-! ## Moves -/

section Moves
variable {d : DB} {op : Op} {x : Option String} {c c' : Core}

theorem Ranked.booked (h : Ranked c) (hb : Booked op c c') : Ranked c' := by
  obtain ⟨φ, hr, hφ⟩ := hb.segments
  have hsegs : c'.segments.rows.map Segment.static = c.segments.rows.map Segment.static := by
    rw [hr, List.map_map]
    exact List.map_congr_left fun g hg => (hφ g hg).1
  have hattempt : ∀ a' ∈ c'.attempts, ∃ a ∈ c.attempts, a'.id = a.id ∧ a'.taskId = a.taskId ∧
      a'.attemptNo = a.attemptNo := fun a' ha' => by
    obtain ⟨a, ha, -, hst⟩ := mem_of_map_eq hb.attempts ha'
    exact ⟨a, ha, Attempt.static_eq hst⟩
  have hsegment : ∀ g' ∈ c'.segments, ∃ g ∈ c.segments, g'.static = g.static := fun g' hg' => by
    obtain ⟨g, hg, -, hst⟩ := mem_of_map_eq hsegs hg'
    exact ⟨g, hg, hst⟩
  refine ⟨fun g' hg' => ?_, fun a' ha' b' hb' htask hno => ?_, fun g' hg' k' hk' hid hno => ?_,
    fun a' ha' => ?_, fun g' hg' hact k' hk' hid => ?_⟩
  · obtain ⟨g, hg, hst⟩ := hsegment g' hg'
    obtain ⟨a, ha, h1, h2, h3⟩ := h.numberOf g hg
    obtain ⟨a', ha', -, hast⟩ := mem_of_map_eq hb.attempts.symm ha
    obtain ⟨e1, e2, e3⟩ := Attempt.static_eq hast.symm
    refine ⟨a', ha', ?_, ?_, ?_⟩
    · rw [e1, h1, Segment.static_attemptId hst]
    · rw [e2, h2, Segment.static_taskId hst]
    · rw [e3, h3]
      exact (congrArg Segment.attemptNo hst.symm :)
  · obtain ⟨a, ha, h1, h2, h3⟩ := hattempt a' ha'
    obtain ⟨b, hb, e1, e2, e3⟩ := hattempt b' hb'
    rw [h1, e1]
    exact h.attempts a ha b hb (by rw [← h2, ← e2, htask]) (by rw [← h3, ← e3, hno])
  · obtain ⟨g, hg, hst⟩ := hsegment g' hg'
    obtain ⟨k, hk, hkt⟩ := hsegment k' hk'
    rw [Segment.static_id hst, Segment.static_id hkt]
    refine h.segments g hg k hk ?_ ?_
    · rw [← Segment.static_attemptId hst, ← Segment.static_attemptId hkt, hid]
    · rw [← Segment.static_segmentNo hst, ← Segment.static_segmentNo hkt, hno]
  · obtain ⟨a, ha, h1, -, -⟩ := hattempt a' ha'
    obtain ⟨g, hg, hga⟩ := h.launched a ha
    have hm : φ g ∈ c'.segments := Table.mem_def.mpr (hr ▸ List.mem_map_of_mem hg)
    exact ⟨φ g, hm, by rw [Segment.static_attemptId (hφ g hg).1, hga, h1]⟩
  · rw [Table.mem_def, hr] at hg'
    obtain ⟨g, hg, rfl⟩ := List.mem_map.mp hg'
    obtain ⟨k, hk, hkt⟩ := hsegment k' hk'
    obtain ⟨hst, hre⟩ := hφ g hg
    have hga : g.active = true := by
      obtain ⟨-, ha⟩ | ⟨ha, -⟩ := hre
      · exact ha.symm.trans hact
      · exact ha
    rw [Segment.static_rank hkt, Segment.static_rank hst]
    refine h.latest g hg hga k hk ?_
    rw [← Segment.static_taskId hkt, ← Segment.static_taskId hst, hid]

/-- A claim launches its task past every segment the task has. -/
theorem place_above {t : Task} {env : Env} {place : Placement} {c₁ : Core} (h : Ranked c)
    (hn : Numbered c) (ht : t ∈ c.tasks) (hplace : c.place env t = .ok place)
    (hattempt : c.startAttempt t place = .ok c₁) {k : Segment} (hk : k ∈ c.segments)
    (hid : k.taskId = t.id) : k.attemptNo < place.attemptNo ∨
      k.attemptNo = place.attemptNo ∧ k.segmentNo < place.segmentNo := by
  obtain ⟨a, ha, haid, hat, han⟩ := h.numberOf k hk
  rcases startAttempt_cases hplace hattempt with ⟨-, hres, -⟩ | ⟨-, rfl, -, -⟩
  · simp only [Core.placeResume, bind_ok_iff, expect_ok, require_ok, exists_const,
      Except.ok.injEq] at hres
    obtain ⟨b, hb, -, rfl⟩ := hres
    have hm := List.argmax_mem hb
    simp only [List.mem_filter, decide_eq_true_eq] at hm
    have hle : a.attemptNo ≤ b.attemptNo := by
      refine List.le_of_mem_argmax (f := Attempt.attemptNo) ?_ hb
      simp [List.mem_filter, hat, hid, Table.mem_def.mp ha]
    by_cases heq : a.attemptNo = b.attemptNo
    · have hab : a.id = b.id := h.attempts a ha b hm.1 (hat.trans (hid.trans hm.2.symm)) heq
      have hno := hn.segmentNo k hk
      rw [← haid, hab] at hno
      exact .inr ⟨han.symm.trans heq, Nat.lt_succ_of_le hno⟩
    · exact .inl (by change k.attemptNo < b.attemptNo; omega)
  · have hle := hn.attemptNo a ha t ht (hid.symm.trans hat.symm)
    exact .inl (by change k.attemptNo < c.groupAttempts t.budgetGroupId + 1; omega)

/-- The attempt a claim launches into, where the number of its segment is free. -/
theorem place_attempt {t : Task} {env : Env} {place : Placement} {c₁ : Core} (h : Ranked c)
    (hn : Numbered c) (hplace : c.place env t = .ok place)
    (hattempt : c.startAttempt t place = .ok c₁) :
    (∃ a ∈ c₁.attempts, a.id = place.attemptId ∧ a.taskId = t.id ∧ a.attemptNo = place.attemptNo) ∧
      ∀ g ∈ c.segments, g.attemptId = place.attemptId → g.segmentNo ≠ place.segmentNo := by
  rcases startAttempt_cases hplace hattempt with ⟨-, hres, rfl⟩ | ⟨-, -, -, attempts, hi, rfl⟩
  · simp only [Core.placeResume, bind_ok_iff, expect_ok, require_ok, exists_const,
      Except.ok.injEq] at hres
    obtain ⟨a, ha, -, rfl⟩ := hres
    have hm := List.argmax_mem ha
    simp only [List.mem_filter, decide_eq_true_eq] at hm
    obtain ⟨b, hb, hst⟩ := mem_of_map_prefix (setAttemptStatus_kept (c := c)
      .running).attempts hm.1
    obtain ⟨e1, e2, e3⟩ := Attempt.static_eq hst
    refine ⟨⟨b, hb, e1, e2.trans hm.2, e3⟩, fun g hg hid hno => ?_⟩
    have hle := hn.segmentNo g hg
    rw [hid, hno] at hle
    exact absurd hle (Nat.not_succ_le_self _)
  · refine ⟨⟨_, (Table.mem_insert hi).mpr (.inr rfl), rfl, rfl, rfl⟩, fun g hg hid => ?_⟩
    obtain ⟨a, ha, haid, -⟩ := h.numberOf g hg
    exact absurd (haid.trans hid) ((Table.insert?_eq_some.mp hi).1 a ha)

/-- Of the attempts a claim leaves, no two of one task have the same number. -/
theorem Ranked.attempts_claim {t : Task} {env : Env} {place : Placement} {c₁ : Core} (h : Ranked c)
    (hplace : c.place env t = .ok place) (hattempt : c.startAttempt t place = .ok c₁) :
    ∀ a ∈ c₁.attempts, ∀ b ∈ c₁.attempts,
      a.taskId = b.taskId → a.attemptNo = b.attemptNo → a.id = b.id := by
  intro a ha b hb htask hno
  rcases startAttempt_cases hplace hattempt with ⟨-, -, rfl⟩ | ⟨-, -, hfree, attempts, hia, rfl⟩
  · obtain ⟨a', ha', -, hst⟩ := mem_of_map_eq (setAttemptStatus_attempts c _ _) ha
    obtain ⟨b', hb', -, hbt⟩ := mem_of_map_eq (setAttemptStatus_attempts c _ _) hb
    obtain ⟨e1, e2, e3⟩ := Attempt.static_eq hst
    obtain ⟨f1, f2, f3⟩ := Attempt.static_eq hbt
    rw [e1, f1]
    exact h.attempts a' ha' b' hb' (e2.symm.trans (htask.trans f2)) (e3.symm.trans (hno.trans f3))
  · rcases (Table.mem_insert hia).mp ha with ha | rfl <;>
      rcases (Table.mem_insert hia).mp hb with hb | rfl
    · exact h.attempts a ha b hb htask hno
    · exact absurd ⟨htask, hno⟩ (hfree a ha)
    · exact absurd ⟨htask.symm, hno.symm⟩ (hfree b hb)
    · rfl

/-- Every attempt a claim leaves has a segment, or it is the one of the launch. -/
theorem Ranked.launched_claim {t : Task} {env : Env} {place : Placement} {c₁ : Core} (h : Ranked c)
    (hplace : c.place env t = .ok place) (hattempt : c.startAttempt t place = .ok c₁)
    {a : Attempt} (ha : a ∈ c₁.attempts) :
    (∃ g ∈ c.segments, g.attemptId = a.id) ∨ a.id = place.attemptId := by
  rcases startAttempt_cases hplace hattempt with ⟨-, -, rfl⟩ | ⟨-, -, -, attempts, hia, rfl⟩
  · obtain ⟨b, hb, -, hst⟩ := mem_of_map_eq (setAttemptStatus_attempts c _ _) ha
    obtain ⟨g, hg, hga⟩ := h.launched b hb
    exact .inl ⟨g, hg, hga.trans (Attempt.static_eq hst).1.symm⟩
  · rcases (Table.mem_insert hia).mp ha with ha | rfl
    · exact .inl (h.launched a ha)
    · exact .inr rfl

/-- The attempts of older segments keep their numbers in a claim. -/
theorem Ranked.numberOf_claim {t : Task} {place : Placement} {c₁ : Core} (h : Ranked c)
    (hattempt : c.startAttempt t place = .ok c₁) {g : Segment} (hg : g ∈ c.segments) :
    ∃ a ∈ c₁.attempts, a.id = g.attemptId ∧ a.taskId = g.taskId ∧ a.attemptNo = g.attemptNo := by
  obtain ⟨a, ha, h1, h2, h3⟩ := h.numberOf g hg
  obtain ⟨b, hb, hst⟩ := mem_of_map_prefix (startAttempt_kept hattempt).attempts ha
  obtain ⟨e1, e2, e3⟩ := Attempt.static_eq hst
  exact ⟨b, hb, e1.trans h1, e2.trans h2, e3.trans h3⟩

theorem Ranked.claim (h : Ranked c) (hn : Numbered c) (hs : Slots d.toPlatform c)
    (hc : Claim d op c c') : Ranked c' := by
  obtain @⟨c₁, c₂, env, hostId, epoch, -, t, place, -, ht, hclaim, hplace, -, hattempt,
    hsegment⟩ := hc
  have hrest := hs.idle ht (TaskStatus.idle_of_claimable hclaim)
  obtain ⟨-, -, -, hsegs⟩ := startAttempt_frame hattempt
  obtain ⟨segments, hi, rfl⟩ := startSegment_cases hsegment
  rw [hsegs] at hi
  have hmem : ∀ g ∈ segments, g ∈ c.segments ∨
      g = d.claimedSegment env hostId epoch t place (c.grant t) := fun g hg =>
    (Table.mem_insert hi).mp hg
  -- the attempt of the launch, and that it holds no segment under the new number
  obtain ⟨⟨a₀, ha₀, hida, hta, hna⟩, hapart⟩ := place_attempt h hn hplace hattempt
  have hnumbers := h.attempts_claim hplace hattempt
  refine ⟨fun g hg => ?_, hnumbers, fun g hg k hk hid hno => ?_,
    fun a ha => ?_, fun g hg hact k hk hid => ?_⟩
  · rcases hmem g hg with hg | rfl
    · exact h.numberOf_claim hattempt hg
    · exact ⟨a₀, ha₀, hida, hta, hna⟩
  · rcases hmem g hg with hg | rfl <;> rcases hmem k hk with hk | rfl
    · exact h.segments g hg k hk hid hno
    · exact absurd hno (hapart g hg hid)
    · exact absurd hno.symm (hapart k hk hid.symm)
    · rfl
  · obtain ⟨g, hg, hga⟩ | hnew := h.launched_claim hplace hattempt ha
    · exact ⟨g, (Table.mem_insert hi).mpr (.inl hg), hga⟩
    · exact ⟨_, (Table.mem_insert hi).mpr (.inr rfl), hnew.symm⟩
  · rcases hmem g hg with hg | rfl <;> rcases hmem k hk with hk | rfl
    · exact h.latest g hg hact k hk hid
    · exact absurd hid.symm (hrest g hg hact)
    · exact (Segment.rank_lt.mpr (place_above h hn ht hplace hattempt hk hid)).le
    · exact le_refl _

/-- A step renumbers nothing. -/
theorem Ranked.step (h : Ranked c) (hn : Numbered c) (hs : Slots d.toPlatform c)
    (hstep : Step d op x c c') : Ranked c' := by
  cases hstep with
  | submit hsub =>
    obtain ⟨p, launchId, stamp, -, -, hi⟩ := hsub.inserted
    have hb : Booked op c c' := .of_eq (by rw [hi.attempts]) hi.segments
    exact h.booked hb
  | move hm =>
    rcases hm.booked with hb | hc
    · exact h.booked hb
    · exact h.claim hn hs hc

end Moves

theorem ranked_fresh (limits : ConcurrencyLimits) : Ranked (Core.fresh limits) := by
  refine ⟨?_, ?_, ?_, ?_, ?_⟩ <;> exact fun _ h => absurd h (Table.not_mem_empty _)

theorem ranked_of_reachable {d : DB} {limits : ConcurrencyLimits} {s : State}
    (h : d.Reachable limits s) : Ranked s.toCore := by
  have hall : Bound s ∧ d.Reachable limits s ∧ Ranked s.toCore := by
    refine reachable_induct (P := fun s => Bound s ∧ d.Reachable limits s ∧ Ranked s.toCore)
      ⟨bound_fresh limits, reachable_fresh d limits, ranked_fresh limits⟩ ?_ h
    intro s op s' ⟨hb, hr, hk⟩ hx
    have he := exec_effect hb hx
    refine ⟨he.bound, step_of_exec hx ▸ reachable_step op hr, ?_⟩
    exact hk.step (numbered_of_reachable hr) (slots_of_reachable hr) he.step
  exact hall.2.2

end Orchestrator.Store
