import Orchestrator.Invariants.Steps

/-!
# Events after the exit

An event for a segment that has exited is logged. What it would do to the
segment each kind guards on its own; the guard `stopped` lacks is the one on the
stop row.
-/
namespace Orchestrator.Store
open Library

/-- Nothing but the event log and its bookkeeping has changed. -/
def LogOnly (s s' : State) : Prop :=
  ∃ events order usage, s' = { s with
    runtimeEvents := events, deliveryOrder := order, storageUsage := usage }

/-- The event is a `stopped` its producer has not committed, for a segment whose
stop row is not `accepted` (an exit leaves it `completed`). -/
def State.Reopens (s : State) (e : Event) : Prop :=
  e.kind = .stopped ∧
    (∀ r ∈ s.runtimeEvents.rows, ¬ (r.producerId = e.producerId ∧ r.sequence = e.sequence)) ∧
    ∃ r ∈ s.stops, r.segmentId = e.segmentId ∧ r.status ≠ .accepted

section Exited
variable {d : DB} {env : Env} {s s' : State} {e : Event} {g : Segment}

theorem updateSegment_eq_self {c : Core} {id : String} {p : Segment → Bool} {f : Segment → Segment}
    {hf : ∀ g, (f g).id = g.id} (h : ∀ g ∈ c.segments, g.id = id → p g = false) :
    c.updateSegment id p f hf = c := by
  have : c.segments.update (fun g => g.id = id && p g) f hf = c.segments := by
    refine Table.update_eq_self fun g hg => ?_
    by_cases hid : g.id = id
    · rw [h g hg hid, Bool.and_false]
    · simp [hid]
  unfold Core.updateSegment Core.updateSegments
  rw [this]

/-- A rewrite guarded on `status <> 'exited'` passes over an exited segment. -/
theorem updateSegment_exited {c : Core} {p : Segment → Bool} {f : Segment → Segment}
    {hf : ∀ g, (f g).id = g.id} (hg : g ∈ c.segments) (hx : g.status = .exited)
    (hp : ∀ k : Segment, p k = true → k.status ≠ .exited) : c.updateSegment g.id p f hf = c := by
  refine updateSegment_eq_self fun k hk hid => ?_
  obtain rfl : k = g := Table.eq_of_key hk hg hid
  rw [← Bool.not_eq_true]
  exact fun h => hp k h hx

theorem applyPhase_exited {c : Core} (hg : g ∈ c.segments) (hx : g.status = .exited)
    (next : SegmentStatus) (allowed : List SegmentStatus) : c.applyPhase g.id next allowed = c :=
  updateSegment_exited hg hx fun k hp => by simpa using (Bool.and_eq_true_iff.mp hp).2

theorem setOutcome_exited {c : Core} (hg : g ∈ c.segments) (hx : g.status = .exited)
    (outcome : Outcome) : c.setOutcome g.id outcome = c :=
  updateSegment_exited hg hx fun k hp => by simpa using (Bool.and_eq_true_iff.mp hp).1

theorem applyUnknown_exited {c : Core} (hg : g ∈ c.segments) (hx : g.status = .exited)
    (hid : g.id = e.segmentId) : c.applyUnknown e = c := by
  rw [Core.applyUnknown, Table.find?_eq_some.mpr ⟨hg, hid⟩, Option.any_some]
  simp [hx]

/-- Applied to an exited segment, an event changes nothing but the stop row of a `stopped`. -/
theorem applyEvent_exited (hg : g ∈ s.segments) (hid : g.id = e.segmentId)
    (hx : g.status = .exited) (h : d.applyEvent env s e = .ok s') :
    s' = if e.kind = .stopped then s.setStopStatus e.segmentId .accepted else s := by
  have hfind : s.segment? e.segmentId = some g := Table.find?_eq_some.mpr ⟨hg, hid⟩
  unfold DB.applyEvent at h
  split at h <;> rename_i hk <;> simp only [hk, reduceCtorEq, if_false, if_true]
  · cases h; rw [← hid, applyPhase_exited hg hx]
  · cases h; rw [← hid, applyPhase_exited hg hx]
  · cases h; rw [← hid, applyPhase_exited hg hx]
  · simp only [applySession, hfind, bind_ok_iff, require_ok, expect_ok, exists_const,
      Option.some.injEq, exists_eq_left', if_pos hx, Except.ok.injEq] at h
    exact h.2.symm
  · simp only [applyQuestion, hfind, bind_ok_iff, require_ok, expect_ok, exists_const,
      Option.some.injEq, exists_eq_left', if_pos hx, Except.ok.injEq] at h
    exact h.2.symm
  · cases h; rw [← hid, setOutcome_exited hg hx]
  · cases h; rw [← hid, setOutcome_exited hg hx]
  · cases h; rw [← hid, setOutcome_exited hg hx]
  · cases h; rw [applyUnknown_exited hg hx hid]
  · simp only [DB.applyExit, hfind, bind_ok_iff, expect_ok, Option.some.injEq, exists_eq_left',
      if_pos hx, Except.ok.injEq] at h
    exact h.symm
  · cases h

theorem setStopRows_eq_self (stops : Table StopRow.segmentId) (id : String) (st : StopStatus) :
    setStopRows stops id st = stops ↔ ∀ r ∈ stops, r.segmentId = id → r.status = st := by
  constructor
  · intro h r hr hid
    have hm : Table.patch (fun r : StopRow => r.segmentId = id)
        (fun r => { r with status := st }) r ∈ setStopRows stops id st := Table.patch_mem_update hr
    rw [Table.patch_pos (by simpa using hid), h] at hm
    exact congrArg StopRow.status (Table.eq_of_key hr hm rfl)
  · intro h
    apply Table.ext
    rw [setStopRows, Table.rows_update]
    refine (List.map_congr_left fun r hr => ?_).trans (List.map_id _)
    unfold Table.patch
    split
    · rename_i hid
      rw [← h r hr (by simpa using hid)]; rfl
    · rfl

end Exited

/-- An accepted event for an exited segment changes the event log only, unless
it is a `stopped` that finds the stop row in another status than `accepted`. -/
theorem late_event_logs_iff {d : DB} {env : Env} {s s' : State} {e : Event} {g : Segment}
    {ack : DurableAck} (hg : g ∈ s.segments) (hid : g.id = e.segmentId) (hx : g.status = .exited)
    (h : d.commitHostEvent env s e = .ok (s', ack)) : LogOnly s s' ↔ ¬ s.Reopens e := by
  obtain ⟨⟨r, hr, hused⟩, rfl⟩ | ⟨hnew, -, s₁, -, -, -, h₁, h₂⟩ := commitHostEvent_cases h
  · exact iff_of_true ⟨_, _, _, rfl⟩ fun hre => hre.2.1 r hr hused
  · obtain ⟨events, order, usage, rfl⟩ := appendEvent_frame h₁
    have hs' := applyEvent_exited (s := { s with
      runtimeEvents := events, deliveryOrder := order, storageUsage := usage }) hg hid hx h₂
    by_cases hk : e.kind = .stopped
    · rw [if_pos hk] at hs'
      have hstops := setStopRows_eq_self s.stops e.segmentId .accepted
      have hlog : LogOnly s s' ↔ setStopRows s.stops e.segmentId .accepted = s.stops := by
        rw [hs']
        constructor
        · rintro ⟨events', order', usage', hlog⟩
          exact congrArg State.stops hlog
        · intro heq
          exact ⟨events, order, usage, by rw [State.setStopStatus, heq]⟩
      rw [hlog, hstops]
      constructor
      · rintro hall ⟨-, -, r, hr, hseg, hst⟩
        exact hst (hall r hr hseg)
      · intro hre r hr hseg
        by_contra hst
        exact hre ⟨hk, hnew, r, hr, hseg, hst⟩
    · rw [if_neg hk] at hs'
      exact iff_of_true ⟨events, order, usage, hs'⟩ fun hre => hk hre.1

/-- The worker of `a` was stopped and has exited. -/
def stoppedOps : List Op :=
  toyStart [toyTask "a" 2 []] ++ [toyClaim 11, .requestStop (toyEnv 12) "a" 1 "user",
    toyCommit "a" 11 1 .exited]

/-- A late result is logged. -/
theorem late_result_logs : ∃ s' ack,
    toyDB.commitHostEvent (toyEnv 10) (toyDB.run (State.fresh {}) stoppedOps)
        (toyEvent "a" 11 2 .result) = .ok (s', ack) ∧
      (LogOnly (toyDB.run (State.fresh {}) stoppedOps) s' ↔
        ¬ (toyDB.run (State.fresh {}) stoppedOps).Reopens (toyEvent "a" 11 2 .result)) := by
  have hfacts : (∃ g ∈ (toyDB.run (State.fresh {}) stoppedOps).segments.rows,
        g.id = (toyEvent "a" 11 2 .result).segmentId ∧ g.status = .exited) ∧
      (toyDB.commitHostEvent (toyEnv 10) (toyDB.run (State.fresh {}) stoppedOps)
        (toyEvent "a" 11 2 .result)).isOk = true := by decide +kernel
  obtain ⟨⟨g, hm, hseg, hx⟩, hok⟩ := hfacts
  obtain ⟨⟨s', ack⟩, h⟩ := exists_of_isOk hok
  exact ⟨s', ack, h, late_event_logs_iff hm hseg hx h⟩

/-- A late `stopped` is accepted and takes the stop row out of `completed`. -/
theorem late_stopped_reopens :
    (∃ g ∈ (toyDB.run (State.fresh {}) stoppedOps).segments.rows,
      g.id = (toyEvent "a" 11 2 .stopped).segmentId ∧ g.status = .exited) ∧
    (toyDB.run (State.fresh {}) stoppedOps).stops.rows.map StopRow.status = [.completed] ∧
    (toyDB.exec (toyDB.run (State.fresh {}) stoppedOps) (toyCommit "a" 11 2 .stopped)).toOption.map
      (fun s' => s'.stops.rows.map StopRow.status) = some [.accepted] := by
  decide +kernel

end Orchestrator.Store
