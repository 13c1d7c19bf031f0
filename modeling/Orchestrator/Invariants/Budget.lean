import Orchestrator.Invariants.Slots

/-!
# Budgets and attempts

A reservation is made once, with the segment, from what is left of its group's
budget, and settled once, by the exit, for at most its grant. `Booked` is what
every other operation does to the books: nothing.
-/
namespace Orchestrator.Store
open Library

/-- A segment's reservation is left alone, or settled by its exit. -/
def Rebooked (op : Op) (g g' : Segment) : Prop :=
  (g'.reservation = g.reservation ∧ g'.active = g.active) ∨
    (g.active = true ∧ g'.active = false ∧ ∃ e, Exits op e g ∧ g'.reservation =
      { g.reservation with
        usedMs := settledMs e.activeMs g.reservation.grantedMs, status := .settled })

/-- No attempt and no segment is added, and reservations are at most settled. -/
structure Booked (op : Op) (c c' : Core) : Prop where
  attempts : c'.attempts.rows.map Attempt.static = c.attempts.rows.map Attempt.static
  segments : ∃ φ : Segment → Segment, c'.segments.rows = c.segments.rows.map φ ∧
    ∀ g ∈ c.segments, (φ g).static = g.static ∧ Rebooked op g (φ g)

/-- A claim that passed its checks. -/
inductive Claim (d : DB) (op : Op) (c : Core) : Core → Prop
  | intro {c₁ c₂ : Core} {env : Env} {hostId : String} {epoch : Nat} {slots : Int} {t : Task}
      {place : Placement} (hop : op = .claimReady env hostId epoch slots) (ht : t ∈ c.tasks)
      (hc : t.status.claimable = true) (hplace : c.place env t = .ok place)
      (hgrant : 0 < c.grant t) (hattempt : c.startAttempt t place = .ok c₁)
      (hsegment : c₁.startSegment
        (d.claimedSegment env hostId epoch t place (c.grant t)) = .ok c₂) :
      Claim d op c (c₂.setTaskStatus t.id .running)

/-! ## Books are left alone, settled or opened -/

section Books
variable {op : Op} {c c' c'' : Core}

theorem Booked.of_eq (ha : c'.attempts.rows.map Attempt.static = c.attempts.rows.map Attempt.static)
    (hs : c'.segments = c.segments) : Booked op c c' :=
  ⟨ha, id, by rw [hs, List.map_id], fun _ _ => ⟨rfl, .inl ⟨rfl, rfl⟩⟩⟩

theorem Quiet.booked (h : Quiet c c') : Booked op c c' := by
  obtain ⟨φ, hr, hφ⟩ := h.segments
  exact ⟨by rw [h.attempts], φ, hr, fun g hg => ⟨(hφ g hg).1, .inl (hφ g hg).2⟩⟩

/-- Later updates that leave attempts and segments alone. -/
theorem Booked.then (h : Booked op c c')
    (ha : c''.attempts.rows.map Attempt.static = c'.attempts.rows.map Attempt.static)
    (hs : c''.segments = c'.segments) : Booked op c c'' :=
  ⟨ha.trans h.attempts, hs ▸ h.segments⟩

theorem settledMs_range (activeMs : Int) {grant : Int} (h : 0 ≤ grant) :
    0 ≤ settledMs activeMs grant ∧ settledMs activeMs grant ≤ grant := by
  simp only [settledMs]
  split <;> split <;> omega

theorem settle_booked {g : Segment} {e : Event} (hg : g ∈ c.segments) (ha : g.active = true)
    (he : Exits op e g) :
    Booked op c (c.settle g.id (settledMs e.activeMs g.reservation.grantedMs)) := by
  refine ⟨rfl, _, rfl, fun k hk => ?_⟩
  unfold Table.patch
  split
  · rename_i hsel
    obtain rfl : k = g := Table.eq_of_key hk hg (by simpa using hsel)
    exact ⟨rfl, .inr ⟨ha, rfl, e, he, rfl⟩⟩
  · exact ⟨rfl, .inl ⟨rfl, rfl⟩⟩

theorem exited_booked {d : DB} {g : Segment} {t : Task} {e : Event} (hg : g ∈ c.segments)
    (ha : g.active = true) (he : Exits op e g) : Booked op c (d.exited c g t e) :=
  (settle_booked hg ha he).then (setAttemptStatus_attempts _ _ _) rfl

theorem sweep_booked : Booked op c c.markStoppingUnknown := by
  have hq : Quiet c (c.updateSegments (fun g => g.status = .stopping)
      (fun g => { g with status := .unknown })) := by
    refine Quiet.updateSegments fun g _ hp => ⟨rfl, rfl, ?_⟩
    rw [decide_eq_true_eq] at hp
    simp [Segment.active, SegmentStatus.active, hp]
  exact hq.booked.then (map_static_update (h := by simp) Attempt.static fun _ => rfl) rfl

theorem Move.booked {d : DB} {x : Option String} (hm : Move d op x c c') :
    Booked op c c' ∨ Claim d op c c' := by
  cases hm with
  | claim hop _ hsel hplace hgrant hattempt hsegment =>
    obtain ⟨ht, -, hc, -⟩ := selectReady_spec hsel
    exact .inr ⟨hop, ht, hc, hplace, hgrant, hattempt, hsegment⟩
  | quiet hq => exact .inl hq.booked
  | stopping hq => exact .inl (hq.booked.then rfl rfl)
  | unknown hq => exact .inl (hq.booked.then (setAttemptStatus_attempts _ _ _) rfl)
  | sweep => exact .inl sweep_booked
  | exit hg ha _ _ _ _ he => exact .inl (exited_booked hg ha he)
  | complete hg ha _ _ _ he =>
    exact .inl ((exited_booked hg ha he).then
      (by rw [(releaseReady_released _).attempts]) (releaseReady_released _).segments)
  | exhaust hg ha _ _ _ _ he => exact .inl ((exited_booked hg ha he).then rfl rfl)
  | cancel => exact .inl (.of_eq rfl rfl)
  | accept =>
    exact .inl (.of_eq (congrArg (List.map _ ∘ Table.rows) (releaseReady_released _).attempts)
      (releaseReady_released _).segments)
  | reject => exact .inl (.of_eq (setAttemptStatus_attempts _ _ _) rfl)
  | rejectLast => exact .inl (.of_eq (setAttemptStatus_attempts _ _ _) rfl)
  | resume => exact .inl (.of_eq rfl rfl)
  | @retry _ _ payload => cases payload <;> exact .inl (.of_eq rfl rfl)

end Books

/-! ## The ceilings -/

structure Budget (c : Core) : Prop where
  granted : ∀ g ∈ c.segments, 0 < g.reservation.grantedMs
  used : ∀ g ∈ c.segments, g.reservation.status = .settled →
    0 ≤ g.reservation.usedMs ∧ g.reservation.usedMs ≤ g.reservation.grantedMs
  settled : ∀ g ∈ c.segments, g.reservation.status = .settled ↔ g.active = false
  charged : ∀ group, c.charged group ≤ defaultGroupActiveMs
  owned : ∀ a ∈ c.attempts, ∃ t ∈ c.tasks, t.id = a.taskId
  attempts : ∀ group, c.groupAttempts group ≤ 3

section Ceilings
variable {op : Op} {c c' : Core}

/-- Settling cannot raise a charge. -/
theorem Rebooked.charge_le {g g' : Segment} (h : Rebooked op g g')
    (hs : g.reservation.status = .settled ↔ g.active = false)
    (hpos : 0 < g.reservation.grantedMs) : g'.reservation.charge ≤ g.reservation.charge := by
  rcases h with ⟨h, -⟩ | ⟨ha, -, e, -, hr⟩
  · rw [h]
  · have : ¬ g.reservation.status = .settled := fun hset => by rw [hs.mp hset] at ha; cases ha
    rw [hr, Reservation.charge, Reservation.charge, if_pos rfl, if_neg this]
    exact (settledMs_range e.activeMs (Int.le_of_lt hpos)).2

theorem Booked.charged_le (hb : Booked op c c') (h : Budget c) (group : String) :
    c'.charged group ≤ c.charged group := by
  obtain ⟨φ, hr, hφ⟩ := hb.segments
  have hsum : c'.charged group = c.segments.sum (fun g =>
      if (φ g).reservation.budgetGroupId = group then (φ g).reservation.charge else 0) := by
    rw [Core.charged, Table.sum, hr, List.map_map]; rfl
  rw [hsum]
  refine Table.sum_le_sum fun g hg => ?_
  rw [Segment.static_group (hφ g hg).1]
  split
  · exact (hφ g hg).2.charge_le (h.settled g hg) (h.granted g hg)
  · exact le_refl _

theorem Budget.booked (h : Budget c) (hk : Kept c c') (hb : Booked op c c') : Budget c' := by
  have hcharged := hb.charged_le h
  have hattempts := groupAttempts_eq hk hb.attempts
  obtain ⟨ha, φ, hr, hφ⟩ := hb
  have hmem : ∀ g' ∈ c'.segments, ∃ g ∈ c.segments, φ g = g' := fun g' hg => by
    rw [Table.mem_def, hr] at hg; exact List.mem_map.mp hg
  refine ⟨fun g' hg' => ?_, fun g' hg' hs => ?_, fun g' hg' => ?_,
    fun group => (hcharged group).trans (h.charged group), fun a ha' => ?_,
    fun group => (hattempts group).trans_le (h.attempts group)⟩
  · obtain ⟨g, hg, rfl⟩ := hmem g' hg'
    rw [Segment.static_grantedMs (hφ g hg).1]
    exact h.granted g hg
  · obtain ⟨g, hg, rfl⟩ := hmem g' hg'
    rcases (hφ g hg).2 with ⟨heq, -⟩ | ⟨-, -, e, -, heq⟩
    · rw [heq] at hs ⊢; exact h.used g hg hs
    · rw [heq]; exact settledMs_range e.activeMs (Int.le_of_lt (h.granted g hg))
  · obtain ⟨g, hg, rfl⟩ := hmem g' hg'
    rcases (hφ g hg).2 with ⟨heq, hact⟩ | ⟨-, hact, e, -, heq⟩
    · rw [heq, hact]; exact h.settled g hg
    · rw [heq, hact]; simp
  · obtain ⟨b, hb, -, hst⟩ := mem_of_map_eq ha ha'
    obtain ⟨t, ht, hid⟩ := h.owned b hb
    obtain ⟨u, hu, hut⟩ := hk.task ht
    exact ⟨u, hu, by rw [Task.static_id hut, hid]; exact (congrArg Attempt.taskId hst.symm :)⟩

/-- What a claim does to the attempts: nothing for a resume, else one more. -/
theorem startAttempt_cases {t : Task} {env : Env} {place : Placement}
    (hplace : c.place env t = .ok place) (h : c.startAttempt t place = .ok c') :
    (t.status = .resumeQueued ∧ c.placeResume t = .ok place ∧
        c' = c.setAttemptStatus place.attemptId .running) ∨
      (¬ c.attemptsExhausted t.budgetGroupId t.maxAttempts ∧
        place = ⟨env.newId "attempt", c.groupAttempts t.budgetGroupId + 1, 1⟩ ∧
        (∀ a ∈ c.attempts, ¬ (a.taskId = t.id ∧ a.attemptNo = place.attemptNo)) ∧
        ∃ attempts, c.attempts.insert? ⟨place.attemptId, t.id, place.attemptNo, .running⟩ =
          some attempts ∧ c' = { c with attempts := attempts }) := by
  unfold Core.startAttempt at h
  unfold Core.place at hplace
  split at h
  · rename_i hs
    rw [if_pos hs] at hplace
    cases h
    exact .inl ⟨hs, hplace, rfl⟩
  · rename_i hs
    simp only [if_neg hs, Core.placeAttempt, bind_ok_iff, require_ok, exists_const,
      Except.ok.injEq] at hplace
    simp only [bind_ok_iff, require_ok, expect_ok, exists_const, Except.ok.injEq] at h
    obtain ⟨hn, attempts, hi, rfl⟩ := h
    exact .inr ⟨hplace.1, hplace.2.symm, hn, attempts, hi, rfl⟩

theorem claim_kept {t : Task} {place : Placement} {g : Segment} {c₁ c₂ : Core}
    (hattempt : c.startAttempt t place = .ok c₁) (hsegment : c₁.startSegment g = .ok c₂) :
    Kept c (c₂.setTaskStatus t.id .running) :=
  ((startAttempt_kept hattempt).trans (startSegment_kept hsegment)).trans (setTaskStatus_kept _)

/-- A new attempt counts for the group of its task and for no other. -/
theorem groupAttempts_insert {t : Task} {a : Attempt} {attempts : Table Attempt.id}
    (hk : Kept c c') (ht : t ∈ c.tasks) (hi : c.attempts.insert? a = some attempts)
    (ha : a.taskId = t.id) (hc : c'.attempts = attempts) (group : String) :
    c'.groupAttempts group = c.groupAttempts group + if t.budgetGroupId = group then 1 else 0 := by
  have hgroup : c.inGroup group a.taskId = decide (t.budgetGroupId = group) := by
    rw [Core.inGroup, ha, Table.find?_eq_some.mpr ⟨ht, rfl⟩, Option.any_some]
  rw [Core.groupAttempts, inGroup_kept hk, hc, Table.count_insert hi, hgroup, Core.groupAttempts]
  simp only [decide_eq_true_eq]

/-- A claim adds at most one attempt, to the group of its task, which still had one left. -/
theorem claim_groupAttempts {t : Task} {env : Env} {place : Placement} {g : Segment} {c₁ c₂ : Core}
    (ht : t ∈ c.tasks) (hplace : c.place env t = .ok place)
    (hattempt : c.startAttempt t place = .ok c₁) (hsegment : c₁.startSegment g = .ok c₂)
    (group : String) :
    (c₂.setTaskStatus t.id .running).groupAttempts group = c.groupAttempts group ∨
      (t.budgetGroupId = group ∧ ¬ c.attemptsExhausted t.budgetGroupId t.maxAttempts ∧
        (c₂.setTaskStatus t.id .running).groupAttempts group = c.groupAttempts group + 1) := by
  have hk := claim_kept hattempt hsegment
  obtain ⟨segments, -, rfl⟩ := startSegment_cases hsegment
  obtain ⟨-, -, rfl⟩ | ⟨hleft, -, -, attempts, hi, rfl⟩ := startAttempt_cases hplace hattempt
  · exact .inl (groupAttempts_eq hk (setAttemptStatus_attempts _ _ _) group)
  · have hcount := groupAttempts_insert hk ht hi rfl rfl group
    by_cases hg : t.budgetGroupId = group
    · rw [if_pos hg] at hcount; exact .inr ⟨hg, hleft, hcount⟩
    · rw [if_neg hg] at hcount; exact .inl hcount

theorem Budget.claim {d : DB} (h : Budget c) (hc : Claim d op c c') : Budget c' := by
  obtain @⟨c₁, c₂, env, hostId, epoch, -, t, place, -, ht, hclaim, hplace, hgrant, hattempt,
    hsegment⟩ := hc
  have hk := claim_kept hattempt hsegment
  have hgroup := claim_groupAttempts ht hplace hattempt hsegment
  obtain ⟨-, -, -, hsegs⟩ := startAttempt_frame hattempt
  obtain ⟨segments, hi, rfl⟩ := startSegment_cases hsegment
  rw [hsegs] at hi
  have hmem : ∀ g ∈ segments, g ∈ c.segments ∨
      g = d.claimedSegment env hostId epoch t place (c.grant t) := fun g hg =>
    (Table.mem_insert hi).mp hg
  refine ⟨fun g hg => ?_, fun g hg hs => ?_, fun g hg => ?_, fun group => ?_, fun a ha => ?_,
    fun group => ?_⟩
  · rcases hmem g hg with hg | rfl
    · exact h.granted g hg
    · exact hgrant
  · rcases hmem g hg with hg | rfl
    · exact h.used g hg hs
    · cases hs
  · rcases hmem g hg with hg | rfl
    · exact h.settled g hg
    · simp [DB.claimedSegment, Segment.active, SegmentStatus.active]
  · change segments.sum _ ≤ _
    rw [Table.sum_insert hi]
    have hle := h.charged group
    rw [Core.charged] at hle
    split
    · -- the grant was cut to what the group had left
      rename_i hgr
      have hgrant' : c.grant t ≤ defaultGroupActiveMs - c.charged t.budgetGroupId :=
        min_le_right _ _
      have hg : t.budgetGroupId = group := hgr
      rw [hg, Core.charged] at hgrant'
      change _ + c.grant t ≤ _
      omega
    · omega
  · rcases startAttempt_cases hplace hattempt with ⟨-, -, rfl⟩ | ⟨-, -, -, attempts, hia, rfl⟩
    · obtain ⟨b, hb, -, hst⟩ := mem_of_map_eq
        (setAttemptStatus_attempts c place.attemptId .running) ha
      obtain ⟨u, hu, hid⟩ := h.owned b hb
      obtain ⟨v, hv, hvu⟩ := hk.task hu
      exact ⟨v, hv, by rw [Task.static_id hvu, hid]; exact (congrArg Attempt.taskId hst.symm :)⟩
    · rcases (Table.mem_insert hia).mp ha with ha | rfl
      · obtain ⟨u, hu, hid⟩ := h.owned a ha
        obtain ⟨v, hv, hvu⟩ := hk.task hu
        exact ⟨v, hv, (Task.static_id hvu).trans hid⟩
      · obtain ⟨v, hv, hvt⟩ := hk.task ht
        exact ⟨v, hv, Task.static_id hvt⟩
  · rcases hgroup group with heq | ⟨hg, hleft, heq⟩
    · exact heq.trans_le (h.attempts group)
    · rw [heq]
      unfold Core.attemptsExhausted at hleft
      rw [hg] at hleft
      omega

/-- The tasks of a new plan have no attempts yet. -/
theorem groupAttempts_inserted {d : DB} {launchId stamp : String} {specs : List TaskSpec}
    (h : ∀ a ∈ c.attempts, ∃ t ∈ c.tasks, t.id = a.taskId)
    (hi : Inserted d launchId stamp specs c c') (group : String) :
    c'.groupAttempts group = c.groupAttempts group := by
  obtain ⟨new, hr, -⟩ := hi.rows
  rw [Core.groupAttempts, hi.attempts]
  refine Table.count_congr fun a ha => ?_
  obtain ⟨t, ht, hid⟩ := h a ha
  have ht' : t ∈ c'.tasks := by rw [Table.mem_def, hr]; exact List.mem_append_left _ ht
  rw [Core.inGroup, Core.inGroup, Table.find?_eq_some.mpr ⟨ht', hid⟩,
    Table.find?_eq_some.mpr ⟨ht, hid⟩]

theorem Budget.submitted {d : DB} (h : Budget c) (hs : Submitted d c c') : Budget c' := by
  obtain ⟨p, launchId, stamp, -, -, hi⟩ := hs.inserted
  obtain ⟨new, hr, -⟩ := hi.rows
  have hold : ∀ t ∈ c.tasks, t ∈ c'.tasks := fun t ht => by
    rw [Table.mem_def, hr]; exact List.mem_append_left _ ht
  have hgroup := groupAttempts_inserted h.owned hi
  refine ⟨?_, ?_, ?_, ?_, fun a ha => ?_, fun group => (hgroup group).trans_le (h.attempts group)⟩
  · rw [hi.segments]; exact h.granted
  · rw [hi.segments]; exact h.used
  · rw [hi.segments]; exact h.settled
  · unfold Core.charged; rw [hi.segments]; exact h.charged
  · rw [hi.attempts] at ha
    obtain ⟨t, ht, hid⟩ := h.owned a ha
    exact ⟨t, hold t ht, hid⟩

theorem Budget.step {d : DB} {x : Option String} (h : Budget c) (hs : Step d op x c c') :
    Budget c' := by
  cases hs with
  | submit hs => exact h.submitted hs
  | move hm =>
    rcases hm.booked with hb | hc
    · exact h.booked hm.kept hb
    · exact h.claim hc

end Ceilings

theorem budget_fresh (limits : ConcurrencyLimits) : Budget (Core.fresh limits) := by
  refine ⟨?_, ?_, ?_, fun group => ?_, ?_, fun group => ?_⟩
  · intro _ h; exact absurd h (Table.not_mem_empty _)
  · intro _ h; exact absurd h (Table.not_mem_empty _)
  · intro _ h; exact absurd h (Table.not_mem_empty _)
  · simp [Core.charged, Core.fresh, defaultGroupActiveMs]
  · intro _ h; exact absurd h (Table.not_mem_empty _)
  · simp [Core.groupAttempts, Core.fresh]

theorem budget_of_reachable {d : DB} {limits : ConcurrencyLimits} {s : State}
    (h : d.Reachable limits s) : Budget s.toCore :=
  core_invariant (budget_fresh limits) (fun _ _ _ _ hi hs => hi.step hs) h

/-- After any run: the attempts of a group are at most 3, and a claim raises them
at most to the bound of the task it claims; grants are positive and settled for
at most the grant; a group is never charged more than 7,200,000 ms, where a
segment that has not exited is charged its whole grant. -/
theorem budget_ceilings (d : DB) (limits : ConcurrencyLimits) (ops : List Op) :
    (∀ group, (d.run (State.fresh limits) ops).groupAttempts group ≤ 3) ∧
    (∀ env hostId epoch slots s' cmd,
      d.claimReady env (d.run (State.fresh limits) ops) hostId epoch slots = .ok (s', cmd) →
      ∃ t ∈ (d.run (State.fresh limits) ops).tasks, t.id = cmd.taskId ∧
        ∀ group, (d.run (State.fresh limits) ops).groupAttempts group < s'.groupAttempts group →
          t.budgetGroupId = group ∧ (s'.groupAttempts group : Int) ≤ t.maxAttempts) ∧
    (∀ g ∈ (d.run (State.fresh limits) ops).segments, 0 < g.reservation.grantedMs ∧
      (g.reservation.status = .settled →
        0 ≤ g.reservation.usedMs ∧ g.reservation.usedMs ≤ g.reservation.grantedMs) ∧
      (g.active = true → g.reservation.charge = g.reservation.grantedMs)) ∧
    ∀ group, (d.run (State.fresh limits) ops).charged group ≤ 7200000 := by
  have hr : d.Reachable limits (d.run (State.fresh limits) ops) := ⟨ops, rfl⟩
  generalize d.run (State.fresh limits) ops = s at hr ⊢
  have h := budget_of_reachable hr
  refine ⟨h.attempts, fun env hostId epoch slots s' cmd hclaim => ?_, fun g hg => ?_, h.charged⟩
  · obtain ⟨t, place, hx⟩ := claimReady_iff.mp hclaim
    obtain ⟨host, -, -, -, hsel⟩ := hx.host
    obtain ⟨ht, -⟩ := selectReady_spec hsel
    obtain ⟨c₁, c₂, capabilities, h₁, h₂, -, rfl, rfl⟩ := launch_cases hx.launched
    refine ⟨t, ht, rfl, fun group hlt => ?_⟩
    rcases claim_groupAttempts ht hx.placed h₁ h₂ group with heq | ⟨hg, hleft, heq⟩
    · exact absurd heq (Nat.ne_of_gt hlt)
    · refine ⟨hg, ?_⟩
      unfold Core.attemptsExhausted at hleft
      rw [hg] at hleft
      change ((c₂.setTaskStatus t.id .running).groupAttempts group : Int) ≤ _
      omega
  · refine ⟨h.granted g hg, h.used g hg, fun ha => ?_⟩
    have : ¬ g.reservation.status = .settled := fun hs => by
      rw [(h.settled g hg).mp hs] at ha; cases ha
    rw [Reservation.charge, if_neg this]

end Orchestrator.Store
