import Orchestrator.Events.Standing
import Orchestrator.Invariants.Gate

/-!
# Reviews

A review that succeeds is on record as it was asked for, unless it repeats a review that is
stored: of that one only the decision, the hash and the revision are compared.
-/
namespace Orchestrator.Store
open Library

/-! ## What a review has to be -/

/-- The request passes the first check of `ReviewResult`. -/
def ReviewSpec.Valid (spec : ReviewSpec) : Prop :=
  spec.taskId ≠ "" ∧ 1 ≤ spec.workRevision ∧ spec.eventId ≠ "" ∧ 1 ≤ spec.eventRevision ∧
    spec.eventHash ≠ "" ∧ spec.actionSlot ≠ "" ∧ spec.commandId ≠ "" ∧
    (spec.decision = "accept" ∨ spec.decision = "reject")

/-- The stored review is the one that is asked for. -/
structure ReviewDecision.Records (d : DB) (row : ReviewDecision) (spec : ReviewSpec) : Prop where
  taskId : row.taskId = spec.taskId
  eventId : row.eventId = spec.eventId
  eventRevision : row.eventRevision = spec.eventRevision
  eventHash : row.eventHash = d.toLower spec.eventHash
  actionSlot : row.actionSlot = spec.actionSlot
  decision : row.decision = spec.decision

/-- The task of the request is at its work revision. -/
def State.AtRevision (s : State) (spec : ReviewSpec) : Prop :=
  ∃ t ∈ s.tasks, t.id = spec.taskId ∧ t.workRevision = spec.workRevision

/-- The result under a first review, and what becomes of its task. -/
structure FirstReview (s s' : State) (spec : ReviewSpec) : Prop where
  ready : ∃ t ∈ s.tasks, t.id = spec.taskId ∧ t.status = .resultReady
  result : ∃ r ∈ s.runtimeEvents, r.eventId = spec.eventId ∧ r.taskId = spec.taskId ∧
    r.body.kind = .result ∧ (s.latestSegment spec.taskId).map Segment.id = some r.body.segmentId
  decided : ∃ t ∈ s'.tasks, t.id = spec.taskId ∧
    t.status = if spec.decision = "accept" then .completed else .failed

structure ReviewExact (d : DB) (s : State) (spec : ReviewSpec) : Prop where
  recorded : ∀ s' receipt, d.reviewResult s spec = .ok (s', receipt) →
    (∃ row ∈ s'.reviewDecisions, row.Records d spec) ∧ s'.AtRevision spec
  first : ∀ s' receipt, d.reviewResult s spec = .ok (s', receipt) →
    s.reviewDecisions.Unused ReviewDecision.actionSlot spec.actionSlot → FirstReview s s' spec
  replay : ∀ s' receipt, d.reviewResult s spec = .ok (s', receipt) →
    ¬ s.reviewDecisions.Unused ReviewDecision.actionSlot spec.actionSlot → s' = s
  refused : ∀ row ∈ s.reviewDecisions,
    row.actionSlot = spec.actionSlot ∨ row.eventId = spec.eventId →
    ¬ (row.Records d spec ∧ s.AtRevision spec) →
      (∃ e, d.reviewResult s spec = .error e) ∧ d.step s (.reviewResult spec) = s

/-- The stored review that the request repeats, by what is compared, is of the request's task,
event and work revision. -/
def ReplayAgrees (d : DB) (s : State) (spec : ReviewSpec) : Prop :=
  spec.Valid → ∀ row ∈ s.reviewDecisions, row.actionSlot = spec.actionSlot →
    row.decision = spec.decision → row.eventHash = d.toLower spec.eventHash →
    row.eventRevision = spec.eventRevision →
      row.taskId = spec.taskId ∧ row.eventId = spec.eventId ∧ s.AtRevision spec

section
variable {d : DB} {limits : ConcurrencyLimits} {s s' : State} {spec : ReviewSpec}
  {row row' : ReviewDecision} {t : Task} {r : String}

/-! ## The slots of reviewed events -/

/-- Reviews carry the slots of their events. -/
def ReviewSlots (s : State) : Prop :=
  ∀ row ∈ s.reviewDecisions, ∃ r ∈ s.runtimeEvents, r.eventId = row.eventId ∧
    r.actionSlot = row.actionSlot

theorem ReviewSlots.exec {op : Op} (h : ReviewSlots s) (hx : d.exec s op = .ok s') :
    ReviewSlots s' := by
  have hkeeps : ∀ row : ReviewDecision, (∃ r ∈ s.runtimeEvents, r.eventId = row.eventId ∧
      r.actionSlot = row.actionSlot) → ∃ r ∈ s'.runtimeEvents, r.eventId = row.eventId ∧
      r.actionSlot = row.actionSlot := by
    rintro row ⟨r, hr, hid, hslot⟩
    obtain ⟨r', hr', heq⟩ := (exec_writes hx).keeps_event hr
    exact ⟨r', hr', (congrArg RuntimeEvent.eventId heq).trans hid,
      (congrArg RuntimeEvent.actionSlot heq).trans hslot⟩
  intro row hrow
  refine hkeeps row ?_
  rcases exec_judged hx with hsame | ⟨spec, t, r, row', -, hj⟩
  · exact h row (hsame ▸ hrow)
  · rcases hj.reviews row hrow with hold | rfl
    · exact h row hold
    · exact ⟨r, hj.event, hj.eventId.symm, hj.slot.symm⟩

theorem reviewSlots_of_reachable (h : d.Reachable limits s) : ReviewSlots s :=
  reachable_induct (fun _ hm => absurd hm (Table.not_mem_empty _))
    (fun _ _ _ hs hx => ReviewSlots.exec hs hx) h

/-- An event has one review. -/
theorem ReviewSlots.unique (h : ReviewSlots s) (hrow : row ∈ s.reviewDecisions)
    (hrow' : row' ∈ s.reviewDecisions) (hid : row.eventId = row'.eventId) : row = row' := by
  obtain ⟨r, hr, hreid, hslot⟩ := h row hrow
  obtain ⟨r', hr', hreid', hslot'⟩ := h row' hrow'
  obtain rfl : r = r' := Table.eq_of_key hr hr' (hreid.trans (hid.trans hreid'.symm))
  exact Table.eq_of_key hrow hrow' (hslot.symm.trans hslot')

/-! ## First reviews -/

/-- The task of an accepted review is completed. -/
theorem accept_completed (ht : t ∈ s.tasks) :
    t.withStatus .completed ∈ (s.toCore.accept t.id).tasks := by
  have hset : t.withStatus .completed ∈ (s.toCore.setTaskStatus t.id .completed).tasks :=
    Core.mem_setTaskStatus.mpr (.inl ⟨t, ht, rfl, rfl⟩)
  obtain ⟨u, hu, hst⟩ := (releaseReady_kept (c := s.toCore.setTaskStatus t.id .completed)).task hset
  obtain ⟨t', ht', hst', hcase⟩ := releaseReady_mem hu
  obtain rfl : t' = t.withStatus .completed :=
    Table.eq_of_key ht' hset (by rw [← Task.static_id hst', Task.static_id hst])
  rcases hcase with ⟨hreleased, -⟩ | ⟨-, rfl⟩
  · cases (releasable_iff.mp hreleased).1
  · exact hu

/-- The task of a rejected review has failed. -/
theorem reject_failed {c : Core} {attemptId : String} (ht : t ∈ s.tasks)
    (h : s.toCore.reject t.id attemptId = .ok c) : t.withStatus .failed ∈ c.tasks := by
  have hset : t.withStatus .failed ∈
      ((s.toCore.setTaskStatus t.id .failed).setAttemptStatus attemptId .failed).tasks :=
    Core.mem_setTaskStatus.mpr (.inl ⟨t, ht, rfl, rfl⟩)
  obtain ⟨-, -, -, ⟨-, rfl⟩ | ⟨-, rfl⟩⟩ := blockIfExhausted_cases h
  · refine mem_blockFailedDependencies.mpr ⟨_, hset, afterBlocking_spared fun hdoomed => ?_⟩
    cases hdoomed.blockable
  · exact hset

/-- What a first review finds, and what it leaves. -/
theorem applyReview_first (h : d.applyReview s spec = .ok (s', r)) :
    (∃ row ∈ s'.reviewDecisions, row.Records d spec) ∧ s'.AtRevision spec ∧
      FirstReview s s' spec ∧ s.reviewDecisions.Unused ReviewDecision.eventId spec.eventId := by
  simp only [DB.applyReview, DB.reviewedEvent, bind_ok_iff, require_ok, expect_ok, exists_const,
    Except.ok.injEq] at h
  obtain ⟨e, ⟨t, ht, r, hr, ⟨htask, hst, hrev, -, -, -⟩, hkind, hlatest, rfl⟩,
    ⟨hunused, -⟩, reviews,
    hi, h⟩ := h
  obtain ⟨hm, hid⟩ := Table.find?_eq_some.mp ht
  obtain ⟨hrm, hrid⟩ := Table.find?_eq_some.mp hr
  have hstored := (Table.mem_insert hi).mpr (.inr rfl)
  have hready : ∃ t ∈ s.tasks, t.id = spec.taskId ∧ t.status = .resultReady := ⟨t, hm, hid, hst⟩
  have hresult : ∃ r ∈ s.runtimeEvents, r.eventId = spec.eventId ∧ r.taskId = spec.taskId ∧
      r.body.kind = .result ∧
      (s.latestSegment spec.taskId).map Segment.id = some r.body.segmentId :=
    ⟨r, hrm, hrid, htask, hkind, hlatest⟩
  rw [← hid] at h
  split at h
  next haccept =>
    cases h
    have hdone := accept_completed hm
    refine ⟨⟨_, hstored, rfl, rfl, rfl, rfl, rfl, rfl⟩, ⟨_, hdone, hid, hrev⟩,
      ⟨hready, hresult, _, hdone, hid, ?_⟩, hunused⟩
    rw [if_pos haccept]
    rfl
  next hother =>
    simp only [bind_ok_iff, Except.ok.injEq, Prod.mk.injEq] at h
    obtain ⟨core, hcore, rfl, -⟩ := h
    have hfailed := reject_failed hm hcore
    refine ⟨⟨_, hstored, rfl, rfl, rfl, rfl, rfl, rfl⟩, ⟨_, hfailed, hid, hrev⟩,
      ⟨hready, hresult, _, hfailed, hid, ?_⟩, hunused⟩
    rw [if_neg hother]
    rfl

/-! ## All reviews -/

theorem valid_of_reviewResult (h : d.reviewResult s spec = .ok (s', r)) : spec.Valid := by
  simp only [DB.reviewResult, bind_ok_iff, require_ok, exists_const] at h
  exact h.1

/-- A replay compares the decision, the hash and the revision. -/
theorem reviewResult_replay (hvalid : spec.Valid) (hrow : row ∈ s.reviewDecisions)
    (hslot : row.actionSlot = spec.actionSlot) (hdecision : row.decision = spec.decision)
    (hhash : row.eventHash = d.toLower spec.eventHash)
    (hrevision : row.eventRevision = spec.eventRevision) :
    d.reviewResult s spec = .ok (s, row.decision ++ "ed") := by
  have hfind : s.reviewDecisions.find? spec.actionSlot = some row :=
    Table.find?_eq_some.mpr ⟨hrow, hslot⟩
  have hcheck := And.intro hdecision (And.intro hhash hrevision)
  unfold ReviewSpec.Valid at hvalid
  rw [DB.reviewResult, require_pos hvalid, ok_bind, hfind]
  dsimp only
  rw [require_pos hcheck, ok_bind]

/-- A review that succeeds repeats a stored one, or is the first of its slot. -/
theorem reviewResult_ok (h : d.reviewResult s spec = .ok (s', r)) :
    (∃ row ∈ s.reviewDecisions, row.actionSlot = spec.actionSlot ∧ row.decision = spec.decision ∧
      row.eventHash = d.toLower spec.eventHash ∧ row.eventRevision = spec.eventRevision ∧ s' = s) ∨
    s.reviewDecisions.Unused ReviewDecision.actionSlot spec.actionSlot ∧
      d.applyReview s spec = .ok (s', r) := by
  simp only [DB.reviewResult, bind_ok_iff, require_ok, exists_const] at h
  obtain ⟨-, h⟩ := h
  split at h
  next previous hprev =>
    obtain ⟨hm, hslot⟩ := Table.find?_eq_some.mp hprev
    simp only [bind_ok_iff, require_ok, exists_const, Except.ok.injEq, Prod.mk.injEq] at h
    obtain ⟨⟨hdecision, hhash, hrevision⟩, hsame, -⟩ := h
    exact .inl ⟨previous, hm, hslot, hdecision, hhash, hrevision, hsame.symm⟩
  next hnone => exact .inr ⟨Table.find?_eq_none.mp hnone, h⟩

theorem reviewExact_of_agrees (hr : d.Reachable limits s) (h : ReplayAgrees d s spec) :
    ReviewExact d s spec := by
  have hcases : ∀ s' r, d.reviewResult s spec = .ok (s', r) →
      (∃ row ∈ s.reviewDecisions, row.Records d spec ∧ s.AtRevision spec ∧ s' = s) ∨
      s.reviewDecisions.Unused ReviewDecision.actionSlot spec.actionSlot ∧
        d.applyReview s spec = .ok (s', r) := by
    intro s' r hok
    rcases reviewResult_ok hok with ⟨row, hrow, hslot, hdecision, hhash, hrevision, rfl⟩ | hfirst
    · obtain ⟨htask, hevent, hat⟩ :=
        h (valid_of_reviewResult hok) row hrow hslot hdecision hhash hrevision
      exact .inl ⟨row, hrow, ⟨htask, hevent, hrevision, hhash, hslot, hdecision⟩, hat, rfl⟩
    · exact .inr hfirst
  refine ⟨fun s' r hok => ?_, fun s' r hok hunused => ?_, fun s' r hok hused => ?_,
    fun row hrow hnames hnot => ?_⟩
  · rcases hcases s' r hok with ⟨row, hrow, hrecords, hat, rfl⟩ | ⟨-, happly⟩
    · exact ⟨⟨row, hrow, hrecords⟩, hat⟩
    · obtain ⟨hrecorded, hat, -⟩ := applyReview_first happly
      exact ⟨hrecorded, hat⟩
  · rcases hcases s' r hok with ⟨row, hrow, hrecords, -⟩ | ⟨-, happly⟩
    · exact absurd hrecords.actionSlot (hunused row hrow)
    · exact (applyReview_first happly).2.2.1
  · rcases hcases s' r hok with ⟨-, -, -, -, hsame⟩ | ⟨hunused, -⟩
    · exact hsame
    · exact absurd hunused hused
  · have herror : ∃ e, d.reviewResult s spec = .error e := by
      cases hresult : d.reviewResult s spec with
      | error e => exact ⟨e, rfl⟩
      | ok p =>
        exfalso
        rcases hcases p.1 p.2 hresult with ⟨row', hrow', hrecords, hat, -⟩ | ⟨hunused, happly⟩
        · have hsame : row' = row := by
            rcases hnames with hslot | hevent
            · exact Table.eq_of_key hrow' hrow (hrecords.actionSlot.trans hslot.symm)
            · exact (reviewSlots_of_reachable hr).unique hrow' hrow
                (hrecords.eventId.trans hevent.symm)
          exact hnot ⟨hsame ▸ hrecords, hat⟩
        · rcases hnames with hslot | hevent
          · exact hunused row hrow hslot
          · exact (applyReview_first happly).2.2.2 row hrow hevent
    obtain ⟨e, he⟩ := herror
    exact ⟨⟨e, he⟩, step_of_error (by rw [DB.exec, he]; rfl)⟩

theorem agrees_of_reviewExact (h : ReviewExact d s spec) : ReplayAgrees d s spec := by
  intro hvalid row hrow hslot hdecision hhash hrevision
  have hok := reviewResult_replay hvalid hrow hslot hdecision hhash hrevision
  obtain ⟨⟨row', hrow', hrecords⟩, hat⟩ := h.recorded s _ hok
  obtain rfl : row' = row := Table.eq_of_key hrow' hrow (hrecords.actionSlot.trans hslot.symm)
  exact ⟨hrecords.taskId, hrecords.eventId, hat⟩

end

/-- A review that succeeds is the one that was asked for if and only if the stored review that it
repeats, if it repeats one, is of its task, event and work revision. -/
theorem review_exact_iff (d : DB) (limits : ConcurrencyLimits) (ops : List Op) (spec : ReviewSpec) :
    ReviewExact d (d.run (State.fresh limits) ops) spec ↔
      ReplayAgrees d (d.run (State.fresh limits) ops) spec :=
  ⟨agrees_of_reviewExact, reviewExact_of_agrees ⟨ops, rfl⟩⟩

def toyReview (taskId : String) : ReviewSpec where
  taskId := taskId
  workRevision := 1
  eventId := "host:1"
  eventRevision := 1
  eventHash := toyDigest "result11"
  actionSlot := "action-2300be305148432b87cb7cbd348551eb"
  decision := "accept"
  commandId := "review"

/-- The result of one of two tasks, accepted. -/
def reviewedOps : List Op :=
  toyStart [toyTask "a" 1 [], toyTask "b" 1 []] ++
    [toyClaim 11, toyCommit "a" 11 1 .result, toyCommit "a" 11 2 .exited,
      .reviewResult (toyReview "a")]

/-- The same review is reported as made for the other task. -/
theorem other_task_is_accepted :
    ¬ ReviewExact toyDB (toyDB.run (State.fresh {}) reviewedOps) (toyReview "b") := by
  have hfacts : (toyDB.run (State.fresh {}) reviewedOps).reviewDecisions.rows.map
      (fun row => (row.actionSlot, row.taskId, row.decision, row.eventHash, row.eventRevision)) =
      [("action-2300be305148432b87cb7cbd348551eb", "a", "accept", toyDigest "result11", 1)] := by
    decide +kernel
  obtain ⟨row, hrows, hrow⟩ := List.map_eq_singleton_iff.mp hfacts
  have hmem : row ∈ (toyDB.run (State.fresh {}) reviewedOps).reviewDecisions :=
    Table.mem_def.mpr (hrows ▸ List.mem_singleton_self row)
  simp only [Prod.mk.injEq] at hrow
  obtain ⟨hslot, htask, hdecision, hhash, hrevision⟩ := hrow
  intro h
  have hagrees := agrees_of_reviewExact h ⟨by decide, by decide, by decide, by decide, by decide,
    by decide, by decide, by decide⟩ row hmem hslot hdecision hhash hrevision
  rw [htask] at hagrees
  exact absurd hagrees.1 (by decide)

end Orchestrator.Store
