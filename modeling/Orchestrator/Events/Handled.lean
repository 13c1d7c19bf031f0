import Orchestrator.Dispatch.Retries
import Orchestrator.Events.Acks
import Orchestrator.Events.Delivered

/-!
# Handled events

An event counts as handled once it was retried, reviewed or answered. Retries
and reviews are on record for good; an answer is read off the question, which
moves on with the task.
-/
namespace Orchestrator.Store
open Library

/-- The event is stored with this content. -/
def State.Holds (s : State) (p : Delivery) (e : Event) : Prop :=
  (∃ r ∈ s.runtimeEvents, r.delivery = p ∧ r.body = e) ∨
    ∃ r ∈ s.reportEvents, r.delivery = p ∧ r.body = e

/-- What a decision finds of a stored event. -/
def Delivery.source (p : Delivery) (e : Event) : SourceEvent :=
  ⟨e.taskId, e.segmentId, p.payloadHash, p.eventRevision, p.actionSlot, p.status, p.fromReport, e⟩

section Sources
variable {d : DB} {s s' : State} {op : Op} {p p' : Delivery} {e e' : Event}

theorem State.Holds.mem (h : s.Holds p e) : p ∈ s.deliveries := by
  obtain ⟨r, hr, hp, -⟩ | ⟨r, hr, hp, -⟩ := h
  · exact mem_deliveries.mpr (.inl ⟨r, hr, hp⟩)
  · exact mem_deliveries.mpr (.inr ⟨r, hr, hp⟩)

/-- A stored event has one content. -/
theorem State.Holds.unique (h : s.Holds p e) (h' : s.Holds p e') : e = e' := by
  obtain ⟨r, hr, rfl, rfl⟩ | ⟨r, hr, rfl, rfl⟩ := h <;>
    obtain ⟨q, hq, hp, rfl⟩ | ⟨q, hq, hp, rfl⟩ := h'
  · rw [Table.eq_of_key hr hq (congrArg Delivery.eventId hp).symm]
  · cases congrArg Delivery.fromReport hp
  · cases congrArg Delivery.fromReport hp
  · rw [Table.eq_of_key hr hq (congrArg Delivery.eventId hp).symm]

theorem source_holds {eventId : String} {source : SourceEvent} (hl : Logged d s) (hb : Bound s)
    (h : s.source eventId = some source) :
    ∃ p, s.Holds p source.body ∧ p.eventId = eventId ∧ source = p.source source.body := by
  unfold State.source at h
  split at h
  · rename_i found hfound
    cases h
    obtain ⟨r, hr, rfl⟩ := Option.map_eq_some_iff.mp hfound
    obtain ⟨hm, hid⟩ := Table.find?_eq_some.mp hr
    have hentry := (hl.rows r hm).1
    have htask : r.taskId = r.body.taskId := (congrArg RuntimeEvent.taskId hentry :)
    have hseg : r.segmentId = r.body.segmentId := (congrArg RuntimeEvent.segmentId hentry :)
    refine ⟨r.delivery, .inl ⟨r, hm, rfl, rfl⟩, hid, ?_⟩
    rw [htask, hseg]
    rfl
  · obtain ⟨r, hr, hc⟩ := Option.bind_eq_some_iff.mp h
    obtain ⟨c, hcap, rfl⟩ := Option.map_eq_some_iff.mp hc
    obtain ⟨hm, hid⟩ := Table.find?_eq_some.mp hr
    obtain ⟨k, hk, hkid, hseg, htask, -⟩ := hb.reports r hm
    rw [← hkid, Table.find?_of_mem hk, Option.some.injEq] at hcap
    subst hcap
    refine ⟨r.delivery, .inr ⟨r, hm, rfl, rfl⟩, hid, ?_⟩
    rw [← hseg, ← htask]
    rfl

/-- A stored event is found by its id, unless a Host event has the id of a report. -/
theorem holds_source (hl : Logged d s) (hb : Bound s) (h : s.Holds p e)
    (hids : p.fromReport = true → ∀ r ∈ s.runtimeEvents, r.eventId ≠ p.eventId) :
    s.source p.eventId = some (p.source e) := by
  obtain ⟨r, hr, rfl, rfl⟩ | ⟨r, hr, rfl, rfl⟩ := h
  · have hentry := (hl.rows r hr).1
    have htask : r.taskId = r.body.taskId := (congrArg RuntimeEvent.taskId hentry :)
    have hseg : r.segmentId = r.body.segmentId := (congrArg RuntimeEvent.segmentId hentry :)
    have hfind : s.runtimeEvents.find? r.delivery.eventId = some r := Table.find?_of_mem hr
    rw [State.source, State.runtimeSource, hfind, Option.map_some, htask, hseg]
    rfl
  · obtain ⟨c, hc, hcid, hseg, htask, -⟩ := hb.reports r hr
    have hnone : s.runtimeEvents.find? r.delivery.eventId = none :=
      Table.find?_eq_none.mpr (hids rfl)
    have hfind : s.reportEvents.find? r.delivery.eventId = some r := Table.find?_of_mem hr
    have hcap : s.reportCapabilities.find? r.capabilityId = some c :=
      Table.find?_eq_some.mpr ⟨hc, hcid⟩
    rw [State.source, State.runtimeSource, hnone, Option.map_none, State.reportSource, hfind,
      Option.bind_some, hcap, Option.map_some, ← hseg, ← htask]
    rfl

/-- Reports stay, whatever becomes of their delivery, once they do not wait for a session. -/
theorem Writes.keeps_report (h : Writes d s op s') {r : ReportEvent} (hr : r ∈ s.reportEvents)
    (hst : r.deliveryStatus ≠ .pendingSession) :
    ∃ r' ∈ s'.reportEvents, r'.unacked = r.unacked := by
  cases h with
  | ack _ hrep =>
    obtain ⟨r', hr', -, heq⟩ := mem_of_map_eq hrep.symm hr
    exact ⟨r', hr', heq.symm⟩
  | claim h =>
    obtain ⟨c₁, c₂, caps, -, -, -, rfl, -⟩ := launch_cases h.launched
    exact ⟨r, hr, rfl⟩
  | report _ _ _ _ _ h₁ h₂ =>
    obtain ⟨hrows, -⟩ := appendReport_rows h₁
    obtain ⟨core, questions, stops, rfl⟩ := askReported_frame h₂
    refine ⟨r, ?_, rfl⟩
    rw [Table.mem_def, show _ = _ from hrows]
    exact List.mem_append_left _ hr
  | event _ _ _ _ _ h₁ h₂ =>
    obtain ⟨events, order, usage, rfl⟩ := appendEvent_frame h₁
    obtain hsame | ⟨q, -, hpend, hrows⟩ := applyEvent_reports h₂
    · exact ⟨r, hsame ▸ hr, rfl⟩
    · refine ⟨r, ?_, rfl⟩
      rw [Table.mem_def, hrows]
      refine List.mem_map.mpr ⟨r, hr, if_neg ?_⟩
      rintro rfl
      exact hst (pendingReportQuestion_spec hpend).2.2.1
  | _ => exact ⟨r, hr, rfl⟩

/-- An event stays stored, with its content. -/
theorem Writes.holds (h : Writes d s op s') (hp : s.Holds p e)
    (hst : p.fromReport = true → p.status ≠ .pendingSession) :
    ∃ p', s'.Holds p' e ∧ p'.acked = p.acked ∧
      (p'.fromReport = true → p'.status ≠ .pendingSession) := by
  obtain ⟨r, hr, rfl, rfl⟩ | ⟨r, hr, rfl, rfl⟩ := hp
  · obtain ⟨r', hr', heq⟩ : ∃ r' ∈ s'.runtimeEvents, r'.entry = r.entry := by
      obtain hsame | ⟨e, -, -, -, hrows⟩ := h.log
      · obtain ⟨r', hr', -, heq⟩ := mem_of_map_eq hsame.symm hr
        exact ⟨r', hr', heq.symm⟩
      · exact ⟨r, Table.mem_def.mpr (hrows ▸ List.mem_append_left _ hr), rfl⟩
    refine ⟨r'.delivery, .inl ⟨r', hr', rfl, (congrArg RuntimeEvent.body heq :)⟩, ?_, nofun⟩
    exact (congrArg (fun q : RuntimeEvent => q.delivery.acked) heq :)
  · obtain ⟨r', hr', heq⟩ := h.keeps_report hr (hst rfl)
    refine ⟨r'.delivery, .inr ⟨r', hr', rfl, (congrArg ReportEvent.body heq :)⟩, ?_, fun _ hx => ?_⟩
    · exact (congrArg (fun q : ReportEvent => q.delivery.acked) heq :)
    · exact hst rfl ((unacked_pendingSession heq).mp hx)

end Sources

/-! ## What the owner has done -/

/-- The retry was granted for the event. -/
structure RetryDecision.Of (row : RetryDecision) (p : Delivery) (e : Event) : Prop where
  eventId : row.sourceEventId = p.eventId
  eventRevision : row.sourceEventRevision = p.eventRevision
  eventHash : row.sourceEventHash = p.payloadHash
  actionSlot : row.actionSlot = p.actionSlot
  taskId : row.taskId = e.taskId
  segmentId : row.sourceSegmentId = e.segmentId

/-- The review was made of the event. -/
structure ReviewDecision.Of (row : ReviewDecision) (p : Delivery) (e : Event) : Prop where
  eventId : row.eventId = p.eventId
  eventRevision : row.eventRevision = p.eventRevision
  eventHash : row.eventHash = p.payloadHash
  actionSlot : row.actionSlot = p.actionSlot
  taskId : row.taskId = e.taskId

/-- Retries and reviews name stored events, and questions that are not open were answered. -/
structure Effects (d : DB) (s : State) : Prop where
  retries : ∀ row ∈ s.retryDecisions, ∃ p e, s.Holds p e ∧
    (p.fromReport = true → p.status ≠ .pendingSession) ∧ row.Of p e
  reviews : ∀ row ∈ s.reviewDecisions, ∃ p e, s.Holds p e ∧
    (p.fromReport = true → p.status ≠ .pendingSession) ∧ row.Of p e
  answers : ∀ q ∈ s.questions, q.status ≠ .open →
    q.questionId ≠ "" ∧ 1 ≤ q.questionRevision ∧ ∃ text, q.answerHash = d.runtimeHash text

section Decided
variable {d : DB} {s s' : State} {op : Op} {p p' : Delivery} {e : Event}

theorem RetryDecision.Of.acked {row : RetryDecision} (h : row.Of p e) (heq : p'.acked = p.acked) :
    row.Of p' e :=
  ⟨h.eventId.trans (congrArg Delivery.eventId heq :).symm,
    h.eventRevision.trans (congrArg Delivery.eventRevision heq :).symm,
    h.eventHash.trans (congrArg Delivery.payloadHash heq :).symm,
    h.actionSlot.trans (congrArg Delivery.actionSlot heq :).symm, h.taskId, h.segmentId⟩

theorem ReviewDecision.Of.acked {row : ReviewDecision} (h : row.Of p e) (heq : p'.acked = p.acked) :
    row.Of p' e :=
  ⟨h.eventId.trans (congrArg Delivery.eventId heq :).symm,
    h.eventRevision.trans (congrArg Delivery.eventRevision heq :).symm,
    h.eventHash.trans (congrArg Delivery.payloadHash heq :).symm,
    h.actionSlot.trans (congrArg Delivery.actionSlot heq :).symm, h.taskId⟩

/-- A new retry names the event it was asked for. -/
theorem queueRetry_source {spec : RetrySpec} {receipt : RetryReceipt} (hl : Logged d s)
    (hb : Bound s) (hr : Reported s) (h : d.queueRetry s spec = .ok (s', receipt)) :
    s' = s ∨ ∃ p e, s.Holds p e ∧ (p.fromReport = true → p.status ≠ .pendingSession) ∧
      (d.retryDecision spec).Of p e ∧
      s.retryDecisions.insert? (d.retryDecision spec) = some s'.retryDecisions := by
  simp only [DB.queueRetry, bind_ok_iff, require_ok, exists_const] at h
  obtain ⟨-, h⟩ := h
  split at h
  · simp only [bind_ok_iff, require_ok, exists_const, Except.ok.injEq, Prod.mk.injEq] at h
    exact .inl h.2.1.symm
  · simp only [DB.applyRetry, DB.retrySource, bind_ok_iff, require_ok, expect_ok, exists_const,
      Except.ok.injEq, Prod.mk.injEq] at h
    obtain ⟨-, t, -, -, -, -, -, ⟨source, hsource, ⟨htask, hseg, hhash, hrev, hslot⟩, hkind, -⟩,
      payload, -, retries, hi, rfl, -⟩ := h
    obtain ⟨p, hp, hid, heq⟩ := source_holds hl hb hsource
    have hfields : source.taskId = source.body.taskId ∧ source.segmentId = source.body.segmentId ∧
        source.payloadHash = p.payloadHash ∧ source.eventRevision = p.eventRevision ∧
        source.actionSlot = p.actionSlot :=
      ⟨(congrArg SourceEvent.taskId heq :), (congrArg SourceEvent.segmentId heq :),
        (congrArg SourceEvent.payloadHash heq :), (congrArg SourceEvent.eventRevision heq :),
        (congrArg SourceEvent.actionSlot heq :)⟩
    obtain ⟨h1, h2, h3, h4, h5⟩ := hfields
    refine .inr ⟨p, source.body, hp, fun _ hst => ?_, ⟨hid.symm, hrev.symm.trans h4,
      hhash.symm.trans h3, hslot.symm.trans h5, htask.symm.trans h1, hseg.symm.trans h2⟩, hi⟩
    -- what waits for a session is a question
    obtain ⟨r, -, rfl, -⟩ | ⟨r, hrm, rfl, hbody⟩ := hp
    · rename_i hfrom
      cases hfrom
    · have hasked := (hr.asked r hrm (hr.held r hrm hst)).1
      rw [hbody] at hasked
      rw [hasked] at hkind
      obtain hkind | hkind := hkind <;> cases hkind

/-- A new review names the event it was made of. -/
theorem reviewResult_source {spec : ReviewSpec} {r : String} (hl : Logged d s)
    (h : d.reviewResult s spec = .ok (s', r)) :
    s' = s ∨ ∃ p e row, s.Holds p e ∧ p.fromReport = false ∧ ReviewDecision.Of row p e ∧
      s.reviewDecisions.insert? row = some s'.reviewDecisions := by
  simp only [DB.reviewResult, bind_ok_iff, require_ok, exists_const] at h
  obtain ⟨-, h⟩ := h
  split at h
  · simp only [bind_ok_iff, require_ok, exists_const, Except.ok.injEq, Prod.mk.injEq] at h
    exact .inl h.2.1.symm
  · simp only [DB.applyReview, DB.reviewedEvent, bind_ok_iff, require_ok, expect_ok, exists_const,
      Except.ok.injEq] at h
    obtain ⟨e, ⟨t, -, row, hrow, ⟨htask, -, -, hrev, hslot, hhash⟩, -, -, rfl⟩, -, reviews,
      hi, h⟩ := h
    obtain ⟨hm, hid⟩ := Table.find?_eq_some.mp hrow
    have htask' : row.taskId = row.body.taskId :=
      (congrArg RuntimeEvent.taskId (hl.rows row hm).1 :)
    refine .inr ⟨row.delivery, row.body, ⟨spec.actionSlot, spec.taskId, spec.eventId,
      spec.eventRevision, d.toLower spec.eventHash, spec.decision, spec.commandId⟩,
      .inl ⟨row, hm, rfl, rfl⟩, rfl, ⟨hid.symm, hrev.symm, hhash.symm, hslot.symm,
        htask.symm.trans htask'⟩, ?_⟩
    split at h
    · cases h
      exact hi
    · simp only [bind_ok_iff, Except.ok.injEq, Prod.mk.injEq] at h
      obtain ⟨core, -, rfl, -⟩ := h
      exact hi

/-- Only `ReviewResult` writes review decisions. -/
theorem Writes.reviews (h : Writes d s op s') :
    s'.reviewDecisions = s.reviewDecisions ∨ ∃ spec, op = .reviewResult spec := by
  cases h with
  | claim h =>
    obtain ⟨c₁, c₂, caps, -, -, -, rfl, -⟩ := launch_cases h.launched
    exact .inl rfl
  | review => exact .inr ⟨_, rfl⟩
  | report _ _ _ _ _ h₁ h₂ =>
    obtain ⟨row, events, order, usage, -, -, -, rfl⟩ := appendReport_frame h₁
    obtain ⟨core, questions, stops, rfl⟩ := askReported_frame h₂
    exact .inl rfl
  | event _ _ _ _ _ h₁ h₂ =>
    obtain ⟨core, reports, order, questions, sessions, stops, rfl⟩ := applyEvent_frame h₂
    obtain ⟨events, order, usage, rfl⟩ := appendEvent_frame h₁
    exact .inl rfl
  | _ => exact .inl rfl

/-- The first answer to a question is stored with its hash. -/
theorem answerQuestion_hashed {spec : AnswerSpec} {status : QuestionStatus} {q' : Question}
    (h : d.answerQuestion s spec = .ok (s', status)) (hq' : q' ∈ s'.questions) :
    q' ∈ s.questions ∨
      (q'.questionId ≠ "" ∧ 1 ≤ q'.questionRevision ∧
        q'.answerHash = d.runtimeHash spec.answer) := by
  simp only [DB.answerQuestion, bind_ok_iff, require_ok, expect_ok, exists_const] at h
  obtain ⟨⟨-, -, hid, hrev, -⟩, q, hq, -, t, -, ⟨-, hqrev⟩, h⟩ := h
  obtain ⟨hm, hqid⟩ := Table.find?_eq_some.mp hq
  split at h
  · simp only [bind_ok_iff, require_ok, exists_const, Except.ok.injEq, Prod.mk.injEq] at h
    exact .inl (h.2.1 ▸ hq')
  · simp only [DB.queueAnswer, bind_ok_iff, require_ok, exists_const, Except.ok.injEq,
      Prod.mk.injEq] at h
    obtain ⟨-, -, -, rfl, -⟩ := h
    obtain ⟨r, hr, rfl⟩ := (Table.mem_update (h := by intro _; rfl)).mp hq'
    unfold Table.patch
    split
    · rename_i hsel
      simp only [Bool.and_eq_true, decide_eq_true_eq] at hsel
      obtain rfl : r = q := Table.eq_of_key hr hm (hsel.1.trans hqid.symm)
      exact .inr ⟨hqid.trans_ne hid, hqrev ▸ hrev, rfl⟩
    · exact .inl hr

/-- What no answer wrote has its answer from before. -/
theorem Inquiry.answered_of (h : Inquiry d op s s') (hop : ∀ spec, op ≠ .answerQuestion spec)
    {q' : Question} (hq' : q' ∈ s'.questions) (hst : q'.status ≠ .open) :
    ∃ q ∈ s.questions, q.status ≠ .open ∧ q'.questionId = q.questionId ∧
      q'.questionRevision = q.questionRevision ∧ q'.answerHash = q.answerHash := by
  have rewritten : ∀ {p : Question → Bool} {st : QuestionStatus} {q : Question}, q ∈ s.questions →
      (Table.patch p (fun q => { q with status := st }) q).status ≠ .open →
      (p q = true → q.status ≠ .open) → ∃ r ∈ s.questions, r.status ≠ .open ∧
        (Table.patch p (fun q => { q with status := st }) q).questionId = r.questionId ∧
        (Table.patch p (fun q => { q with status := st }) q).questionRevision =
          r.questionRevision ∧
        (Table.patch p (fun q => { q with status := st }) q).answerHash = r.answerHash := by
    intro p st q hq hst hsel
    refine ⟨q, hq, ?_, ?_⟩
    · by_cases hp : p q = true
      · exact hsel hp
      · rwa [Table.patch_neg (by simpa using hp)] at hst
    · unfold Table.patch
      split <;> exact ⟨rfl, rfl, rfl⟩
  cases h with
  | idle h => exact ⟨q', h ▸ hq', hst, rfl, rfl, rfl⟩
  | resolve _ _ _ _ h =>
    rw [h] at hq'
    obtain ⟨q, hq, rfl⟩ := Table.mem_update.mp hq'
    exact rewritten hq hst fun hsel => by simp_all
  | spare _ h =>
    cases h with
    | keep h => exact ⟨q', h ▸ hq', hst, rfl, rfl, rfl⟩
    | ask _ _ _ _ _ h =>
      obtain hq | rfl := (Table.mem_insert h).mp hq'
      · exact ⟨q', hq, hst, rfl, rfl, rfl⟩
      · exact absurd rfl hst
    | answer ho _ => exact absurd ho (hop _)
    | start _ _ _ _ _ _ h =>
      rw [h] at hq'
      obtain ⟨q, hq, rfl⟩ := Table.mem_update.mp hq'
      exact rewritten hq hst fun hsel => by simp_all

end Decided

section Recorded
variable {d : DB} {s s' : State} {op : Op} {limits : ConcurrencyLimits}

theorem Effects.fresh (d : DB) (limits : ConcurrencyLimits) : Effects d (State.fresh limits) := by
  refine ⟨?_, ?_, ?_⟩ <;> exact fun _ h => absurd h (Table.not_mem_empty _)

theorem Effects.exec (h : Effects d s) (hr : d.Reachable limits s) (hx : d.exec s op = .ok s') :
    Effects d s' := by
  have hw := exec_writes hx
  have hlog := logged_of_reachable hr
  refine ⟨fun row hm => ?_, fun row hm => ?_, fun q' hq' hst => ?_⟩
  · have hold : row ∈ s.retryDecisions ∨ ∃ p e, s.Holds p e ∧
        (p.fromReport = true → p.status ≠ .pendingSession) ∧ row.Of p e := by
      obtain hsame | ⟨spec, rfl⟩ := hw.retries
      · exact .inl (hsame ▸ hm)
      · obtain ⟨receipt, hret⟩ := committed_ok.mp hx
        obtain rfl | ⟨p, e, hp, hst, hof, hi⟩ :=
          queueRetry_source hlog (bound_of_reachable hr) (reported_of_reachable hr) hret
        · exact .inl hm
        · obtain hm | rfl := (Table.mem_insert hi).mp hm
          · exact .inl hm
          · exact .inr ⟨p, e, hp, hst, hof⟩
    obtain ⟨p, e, hp, hst, hof⟩ := hold.elim (h.retries row) id
    obtain ⟨p', hp', heq, hst'⟩ := hw.holds hp hst
    exact ⟨p', e, hp', hst', hof.acked heq⟩
  · have hold : row ∈ s.reviewDecisions ∨ ∃ p e, s.Holds p e ∧
        (p.fromReport = true → p.status ≠ .pendingSession) ∧ row.Of p e := by
      obtain hsame | ⟨spec, rfl⟩ := hw.reviews
      · exact .inl (hsame ▸ hm)
      · obtain ⟨receipt, hrev⟩ := committed_ok.mp hx
        obtain rfl | ⟨p, e, row', hp, hfrom, hof, hi⟩ := reviewResult_source hlog hrev
        · exact .inl hm
        · obtain hm | rfl := (Table.mem_insert hi).mp hm
          · exact .inl hm
          · refine .inr ⟨p, e, hp, fun hf => ?_, hof⟩
            rw [hfrom] at hf
            cases hf
    obtain ⟨p, e, hp, hst, hof⟩ := hold.elim (h.reviews row) id
    obtain ⟨p', hp', heq, hst'⟩ := hw.holds hp hst
    exact ⟨p', e, hp', hst', hof.acked heq⟩
  · by_cases hop : ∀ spec, op ≠ .answerQuestion spec
    · obtain ⟨q, hq, hqs, h1, h2, h3⟩ :=
        (exec_effect (bound_of_reachable hr) hx).inquiry.answered_of hop hq' hst
      rw [h1, h2, h3]
      exact h.answers q hq hqs
    · obtain ⟨spec, rfl⟩ := not_forall_not.mp hop
      obtain ⟨status, hans⟩ := committed_ok.mp hx
      obtain hq | ⟨hid, hrev, hhash⟩ := answerQuestion_hashed hans hq'
      · exact h.answers q' hq hst
      · exact ⟨hid, hrev, _, hhash⟩

theorem effects_of_reachable (h : d.Reachable limits s) : Effects d s := by
  have hall : d.Reachable limits s ∧ Effects d s := by
    refine reachable_induct (P := fun s : State => d.Reachable limits s ∧ Effects d s)
      ⟨reachable_fresh d limits, .fresh d limits⟩ ?_ h
    intro s op s' ⟨hr, hs⟩ hx
    exact ⟨step_of_exec hx ▸ reachable_step op hr, hs.exec hr hx⟩
  exact hall.2

end Recorded

/-! ## Work revisions -/

/-- Capabilities and reports carry the work revision of their task, and Host events the task of
their segment. -/
structure Revised (s : State) : Prop where
  capabilities : ∀ c ∈ s.reportCapabilities, ∃ t ∈ s.tasks,
    t.id = c.taskId ∧ t.workRevision = c.workRevision
  reports : ∀ r ∈ s.reportEvents, ∃ c ∈ s.reportCapabilities,
    c.capabilityId = r.capabilityId ∧ r.body.workRevision = c.workRevision
  events : ∀ r ∈ s.runtimeEvents, ∃ g ∈ s.segments,
    g.id = r.body.segmentId ∧ g.taskId = r.body.taskId

section Revisions
variable {d : DB} {s s' : State} {op : Op} {limits : ConcurrencyLimits}

theorem Revised.fresh (limits : ConcurrencyLimits) : Revised (State.fresh limits) := by
  refine ⟨?_, ?_, ?_⟩ <;> exact fun _ h => absurd h (Table.not_mem_empty _)

/-- A claim gives the worker a capability for its task. -/
theorem Writes.capability_of (h : Writes d s op s') {c' : ReportCapability}
    (hc : c' ∈ s'.reportCapabilities) :
    (∃ c ∈ s.reportCapabilities, c'.static = c.static) ∨
      ∃ t ∈ s.tasks, t.id = c'.taskId ∧ t.workRevision = c'.workRevision := by
  cases h with
  | claim h =>
    obtain ⟨host, -, -, -, hsel⟩ := h.host
    obtain ⟨ht, -⟩ := selectReady_spec hsel
    obtain ⟨c₁, c₂, caps, -, -, hi, rfl, -⟩ := launch_cases h.launched
    obtain hc | rfl := (Table.mem_insert hi).mp hc
    · exact .inl ⟨c', hc, rfl⟩
    · exact .inr ⟨_, ht, rfl, rfl⟩
  | @register _ _ f hf hst =>
    obtain ⟨c, hm, rfl⟩ := (Table.mem_update (h := hf)).mp hc
    exact .inl ⟨c, hm, Table.patch_field ReportCapability.static hst c⟩
  | report _ _ _ _ _ h₁ h₂ =>
    obtain ⟨row, events, order, usage, -, -, -, rfl⟩ := appendReport_frame h₁
    obtain ⟨core, questions, stops, rfl⟩ := askReported_frame h₂
    obtain ⟨c, hm, rfl⟩ := (Table.mem_update (h := by intro _; rfl)).mp hc
    refine .inl ⟨c, hm, ?_⟩
    unfold Table.patch
    split <;> rfl
  | event _ _ _ _ _ h₁ h₂ =>
    obtain ⟨core, reports, order, questions, sessions, stops, rfl⟩ := applyEvent_frame h₂
    obtain ⟨events, order, usage, rfl⟩ := appendEvent_frame h₁
    exact .inl ⟨c', hc, rfl⟩
  | _ => exact .inl ⟨c', hc, rfl⟩

/-- A new entry of the log names a segment, its task and its attempt. -/
theorem Writes.event_of (h : Writes d s op s') {r' : RuntimeEvent} (hr : r' ∈ s'.runtimeEvents) :
    (∃ r ∈ s.runtimeEvents, r'.body = r.body) ∨ ∃ g ∈ s.segments, Names r'.body g := by
  cases h with
  | ack he =>
    obtain ⟨r, hr₀, -, heq⟩ := mem_of_map_eq he hr
    exact .inl ⟨r, hr₀, (congrArg RuntimeEvent.body heq :)⟩
  | claim h =>
    obtain ⟨c₁, c₂, caps, -, -, -, rfl, -⟩ := launch_cases h.launched
    exact .inl ⟨r', hr, rfl⟩
  | report _ _ _ _ _ h₁ h₂ =>
    obtain ⟨row, events, order, usage, -, -, -, rfl⟩ := appendReport_frame h₁
    obtain ⟨core, questions, stops, rfl⟩ := askReported_frame h₂
    exact .inl ⟨r', hr, rfl⟩
  | event _ _ hg hid hbound h₁ h₂ =>
    have hrows := appendEvent_rows h₁
    obtain ⟨core, reports, order, questions, sessions, stops, rfl⟩ := applyEvent_frame h₂
    rw [Table.mem_def, show _ = _ from hrows, List.mem_append, List.mem_singleton] at hr
    obtain hr | rfl := hr
    · exact .inl ⟨r', hr, rfl⟩
    · exact .inr ⟨_, hg, names_of_bound hg hid hbound _ hg hid⟩
  | _ => exact .inl ⟨r', hr, rfl⟩

theorem Revised.exec (h : Revised s) (hb : Bound s) (hx : d.exec s op = .ok s') : Revised s' := by
  have hw := exec_writes hx
  have hgrows := (exec_effect hb hx).step.grows
  have htask : ∀ {id : String} {rev : Int}, (∃ t ∈ s.tasks, t.id = id ∧ t.workRevision = rev) →
      ∃ t ∈ s'.tasks, t.id = id ∧ t.workRevision = rev := by
    rintro _ _ ⟨t, ht, rfl, rfl⟩
    obtain ⟨t', ht', hst⟩ := hgrows.task ht
    exact ⟨t', ht', Task.static_id hst, (congrArg Task.workRevision hst :)⟩
  have hsegment : ∀ {id taskId : String}, (∃ g ∈ s.segments, g.id = id ∧ g.taskId = taskId) →
      ∃ g ∈ s'.segments, g.id = id ∧ g.taskId = taskId := by
    rintro _ _ ⟨g, hg, rfl, rfl⟩
    obtain ⟨g', hg', hst⟩ := hgrows.segment hg
    exact ⟨g', hg', Segment.static_id hst, Segment.static_taskId hst⟩
  have hcap : ∀ {id : String} {rev : Int},
      (∃ c ∈ s.reportCapabilities, c.capabilityId = id ∧ rev = c.workRevision) →
      ∃ c ∈ s'.reportCapabilities, c.capabilityId = id ∧ rev = c.workRevision := by
    rintro _ _ ⟨c, hc, rfl, rfl⟩
    obtain ⟨c', hc', hst⟩ := mem_of_map_prefix hw.capabilities hc
    exact ⟨c', hc', (ReportCapability.static_binding hst).1,
      (congrArg ReportCapability.workRevision hst :).symm⟩
  refine ⟨fun c' hc' => ?_, fun r' hr' => ?_, fun r' hr' => ?_⟩
  · obtain ⟨c, hc, hst⟩ | hnew := hw.capability_of hc'
    · have hid : c'.taskId = c.taskId := (congrArg ReportCapability.taskId hst :)
      have hrev : c'.workRevision = c.workRevision := (congrArg ReportCapability.workRevision hst :)
      rw [hid, hrev]
      exact htask (h.capabilities c hc)
    · exact htask hnew
  · obtain ⟨r, hr, heq | ⟨_, _, rfl⟩⟩ | ⟨_, _, spec, c, kind, _, _, e, -, hc, hid, -, -, -, rfl⟩ :=
      hw.reports hr'
    · have hid : r'.capabilityId = r.capabilityId := (congrArg ReportEvent.capabilityId heq :)
      have hbody : r'.body = r.body := (congrArg ReportEvent.body heq :)
      rw [hid, hbody]
      exact hcap (h.reports r hr)
    · exact hcap (h.reports r hr)
    · exact hcap ⟨c, hc, hid, rfl⟩
  · obtain ⟨r, hr, hbody⟩ | ⟨g, hg, hid, htask, -⟩ := hw.event_of hr'
    · rw [hbody]
      exact hsegment (h.events r hr)
    · exact hsegment ⟨g, hg, hid.symm, htask.symm⟩

theorem revised_of_reachable (h : d.Reachable limits s) : Revised s := by
  have hall : d.Reachable limits s ∧ Revised s := by
    refine reachable_induct (P := fun s : State => d.Reachable limits s ∧ Revised s)
      ⟨reachable_fresh d limits, .fresh limits⟩ ?_ h
    intro s op s' ⟨hr, hs⟩ hx
    exact ⟨step_of_exec hx ▸ reachable_step op hr, hs.exec (bound_of_reachable hr) hx⟩
  exact hall.2

end Revisions

/-! ## The acknowledgement -/

/-- The slots of the stored events tell them apart, and no Host event has the id of a report. -/
structure EventsApart (d : DB) (s : State) : Prop extends SlotsApart d s where
  ids : ∀ p ∈ s.deliveries, ∀ p' ∈ s.deliveries, p.eventId = p'.eventId →
    p.fromReport = p'.fromReport

/-- The request names the event as it is stored and says that it was handled, under a command
and a delivery id that were not used before. -/
structure HandledCall (d : DB) (s : State) (p : Delivery) (e : Event) (deliveryId proof : String)
    (a : AckDecision) : Prop where
  names : a.For d p
  decision : a.decision = "handled"
  valid : a.valid
  task : e.taskId ≠ ""
  proof : validDigest proof = true
  delivery : deliveryId ≠ "" ∧ s.deliveryReceipts.Unused DeliveryReceipt.deliveryId deliveryId
  command : s.runtimeDecisions.Unused RuntimeDecision.commandId a.commandId

/-- A Host event carries the work revision of its task, as the grant told its Host. -/
def Delivery.Revised (p : Delivery) (s : State) (e : Event) : Prop :=
  p.fromReport = false → ∀ t ∈ s.tasks, t.id = e.taskId → e.workRevision = t.workRevision

/-- The event was retried or reviewed. -/
def State.Decided (s : State) (p : Delivery) : Prop :=
  (∃ row ∈ s.retryDecisions, row.sourceEventId = p.eventId) ∨
    ∃ row ∈ s.reviewDecisions, row.eventId = p.eventId

/-- The owner has done what the event asks for. -/
def State.Performed (s : State) (p : Delivery) (e : Event) : Prop :=
  s.Decided p ∨ (e.kind = .question ∧
    ∃ q ∈ s.questions, q.static = openQuestion e ∧ q.status ≠ .open)

/-- And, for a question, its round is not over. -/
def State.Underway (s : State) (p : Delivery) (e : Event) : Prop :=
  s.Decided p ∨ (e.kind = .question ∧
    ∃ q ∈ s.questions, q.static = openQuestion e ∧ q.status ≠ .open ∧ q.status ≠ .resolved)

section Acknowledgement
variable {d : DB} {s s' : State} {op : Op} {limits : ConcurrencyLimits} {p : Delivery} {e : Event}
  {deliveryId proof : String} {a : AckDecision}

theorem State.Holds.eq (hapart : EventsApart d s) (h : s.Holds p e) {p' : Delivery} {e' : Event}
    (h' : s.Holds p' e') (hid : p'.eventId = p.eventId) : p' = p ∧ e' = e := by
  obtain rfl := delivery_unique h.mem h'.mem (hapart.ids p' h'.mem p h.mem hid) hid
  exact ⟨rfl, h'.unique h⟩

/-- The event of a pending delivery is not decided yet. -/
theorem pending_undecided (hr : d.Reachable limits s) (hapart : EventsApart d s) (h : s.Holds p e)
    (hst : p.status = .pending) : ∀ row ∈ s.runtimeDecisions,
      row.eventId ≠ p.eventId ∧ row.actionSlot ≠ p.actionSlot := by
  intro row hm
  obtain ⟨x, hx, hxst, hnames⟩ := (acks_of_reachable hr).named row hm
  constructor
  · intro hid
    have hxid : x.eventId = p.eventId := hnames.eventId.symm.trans hid
    obtain rfl := delivery_unique h.mem hx (hapart.ids x hx p h.mem hxid) hxid
    rw [hst] at hxst
    cases hxst
  · intro hslot
    obtain rfl := hapart.toSlotsApart.eq (slotted_of_reachable hr) h.mem hx
      (hnames.actionSlot.symm.trans hslot)
    rw [hst] at hxst
    cases hxst

/-- All that stands between the request and its success is the business effect. -/
theorem ackDecisions_handled (hr : d.Reachable limits s) (hapart : EventsApart d s)
    (h : s.Holds p e) (hst : p.status = .pending) (hcall : HandledCall d s p e deliveryId proof a) :
    (∃ s', d.ackDecisions s e.taskId deliveryId proof [a] = .ok (s', ())) ↔
      d.ackCurrent s e.taskId e a = .ok () := by
  obtain ⟨⟨hid, hrev, hhash, hslot⟩, -, hvalid, htask, hproof, ⟨hdelivery, hfresh⟩, hcommand⟩ :=
    hcall
  have hundecided := pending_undecided hr hapart h hst
  have hsource : s.source a.eventId = some (p.source e) := by
    rw [hid]
    refine holds_source (logged_of_reachable hr) (bound_of_reachable hr) h fun hfrom r hrm heq => ?_
    have := hapart.ids r.delivery (mem_deliveries.mpr (.inl ⟨r, hrm, rfl⟩)) p h.mem heq
    rw [hfrom] at this
    cases this
  have hmatch : d.ackMatches e.taskId a (p.source e) := ⟨rfl, hrev.symm, hslot.symm, hhash.symm⟩
  have hdecision : s.runtimeDecisions.find? a.actionSlot = none :=
    Table.find?_eq_none.mpr fun row hm => hslot ▸ (hundecided row hm).2
  have hunused : s.runtimeDecisions.Unused RuntimeDecision.eventId a.eventId :=
    fun row hm => hid ▸ (hundecided row hm).1
  obtain ⟨decisions, hdec, -⟩ := Table.insert?_isSome (t := s.runtimeDecisions)
    (a := d.decisionRow a) fun row hm heq => (hundecided row hm).2 (heq.trans hslot)
  obtain ⟨receipts, hrec, -⟩ := Table.insert?_isSome (t := s.deliveryReceipts)
    (a := ⟨deliveryId, e.taskId, d.toLower proof, d.runtimeHash (d.encodeDecisions [a])⟩) hfresh
  have hreceipt : s.deliveryReceipts.find? deliveryId = none := Table.find?_eq_none.mpr hfresh
  have hpending : (p.source e).deliveryStatus = .pending := hst
  have happly : (∃ s', d.applyAckDecision e.taskId s a = .ok s') ↔
      d.ackCurrent s e.taskId e a = .ok () := by
    simp only [DB.applyAckDecision, hsource, expect_some, ok_bind, require_pos hmatch, hdecision,
      DB.recordDecision, require_pos hpending, require_pos (And.intro hunused hcommand)]
    rw [DB.decisionRow] at hdec
    simp only [hdec, expect_some, ok_bind, bind_ok_iff]
    constructor
    · rintro ⟨_, _, hcur, -⟩
      exact hcur
    · exact fun hcur => ⟨_, (), hcur, rfl⟩
  rw [← happly]
  have hone : [a].foldlM (d.applyAckDecision e.taskId) s = d.applyAckDecision e.taskId s a := by
    rw [List.foldlM_cons]
    exact bind_pure _
  have hrequest : e.taskId ≠ "" ∧ deliveryId ≠ "" ∧ validDigest proof = true ∧ [a] ≠ [] ∧
      [a].length ≤ 64 := ⟨htask, hdelivery, hproof, by simp, by simp⟩
  have hslots : (∀ b ∈ [a], b.valid) ∧ ([a].map AckDecision.actionSlot).Nodup :=
    ⟨fun b hb => List.mem_singleton.mp hb ▸ hvalid, by simp⟩
  simp only [DB.ackDecisions, require_pos hrequest, require_pos hslots, ok_bind, hreceipt, hone]
  constructor
  · rintro ⟨s', hx⟩
    obtain ⟨s₁, h₁, -⟩ := bind_ok_iff.mp hx
    exact ⟨s₁, h₁⟩
  · rintro ⟨s₁, h₁⟩
    have hsame : s₁.deliveryReceipts = s.deliveryReceipts := by
      obtain ⟨decisions, events, reports, rfl, -, -⟩ := applyAckDecision_writes h₁
      rfl
    rw [h₁, ok_bind, hsame, hrec]
    exact ⟨_, rfl⟩

/-- The columns of a question are those of the event that asked it. -/
theorem static_openQuestion {q : Question} (h : q.static = openQuestion e) :
    q.questionId = e.questionId ∧ q.taskId = e.taskId ∧ q.attemptId = e.attemptId ∧
      q.segmentId = e.segmentId ∧ q.questionRevision = e.questionRevision ∧
      q.workRevision = e.workRevision :=
  ⟨(congrArg Question.questionId h :), (congrArg Question.taskId h :),
    (congrArg Question.attemptId h :), (congrArg Question.segmentId h :),
    (congrArg Question.questionRevision h :), (congrArg Question.workRevision h :)⟩

/-- The effect the code finds is the one that was performed, unless its question is resolved. -/
theorem hasBoundBusinessEffect_iff (hr : d.Reachable limits s) (hhash : ∀ x, d.runtimeHash x ≠ "")
    (hapart : EventsApart d s) (h : s.Holds p e) (hperformed : s.Performed p e)
    (hnames : a.For d p) :
    d.hasBoundBusinessEffect s e.taskId e a = true ↔ s.Underway p e := by
  have heffects := effects_of_reachable hr
  obtain ⟨hid, hrev, hash, hslot⟩ := hnames
  simp only [DB.hasBoundBusinessEffect, Bool.or_eq_true, Bool.and_eq_true, List.any_eq_true,
    decide_eq_true_eq]
  constructor
  · rintro ((⟨row, hm, ⟨⟨⟨-, hrow⟩, -⟩, -⟩, -⟩ | ⟨row, hm, ⟨⟨-, hrow⟩, -⟩, -⟩) |
      ⟨⟨⟨hkind, -⟩, -⟩, q, hq, ⟨⟨⟨⟨⟨hqid, -⟩, -⟩, -⟩, -⟩, -⟩, hst⟩)
    · exact .inl (.inl ⟨row, hm, hrow.trans hid⟩)
    · exact .inl (.inr ⟨row, hm, hrow.trans hid⟩)
    · refine hperformed.imp id fun ⟨_, r, hrm, hstatic, _⟩ => ⟨hkind, r, hrm, hstatic, ?_⟩
      obtain rfl : q = r :=
        Table.eq_of_key hq hrm (hqid.trans (static_openQuestion hstatic).1.symm)
      obtain hst | hst := hst <;> simp [hst]
  · rintro ((⟨row, hm, hrow⟩ | ⟨row, hm, hrow⟩) | ⟨hkind, q, hq, hstatic, hopen, hresolved⟩)
    · obtain ⟨p', e', hp', -, hof⟩ := heffects.retries row hm
      obtain ⟨rfl, rfl⟩ := h.eq hapart hp' (hof.eventId.symm.trans hrow)
      exact .inl (.inl ⟨row, hm, ⟨⟨⟨⟨hof.actionSlot.trans hslot.symm, hof.taskId⟩,
        hof.eventId.trans hid.symm⟩, hof.eventRevision.trans hrev.symm⟩,
        hof.eventHash.trans hash.symm⟩, hof.segmentId⟩)
    · obtain ⟨p', e', hp', -, hof⟩ := heffects.reviews row hm
      obtain ⟨rfl, rfl⟩ := h.eq hapart hp' (hof.eventId.symm.trans hrow)
      exact .inl (.inr ⟨row, hm, ⟨⟨⟨hof.actionSlot.trans hslot.symm, hof.taskId⟩,
        hof.eventId.trans hid.symm⟩, hof.eventRevision.trans hrev.symm⟩,
        hof.eventHash.trans hash.symm⟩)
    · obtain ⟨h1, h2, -, h4, h5, h6⟩ := static_openQuestion hstatic
      obtain ⟨hne, hpos, text, htext⟩ := heffects.answers q hq hopen
      refine .inr ⟨⟨⟨hkind, h1 ▸ hne⟩, h5 ▸ hpos⟩, q, hq, ⟨⟨⟨⟨⟨h1, h2⟩, h4⟩, h5⟩, h6⟩, ?_⟩, ?_⟩
      · exact htext ▸ hhash text
      · cases hst : q.status with
        | «open» => exact absurd hst hopen
        | resumeQueued => exact .inl rfl
        | resumeStarted => exact .inr rfl
        | resolved => exact absurd hst hresolved

/-- The task of a stored event and its segment, as an acknowledgement looks for them. -/
theorem State.Holds.task (h : s.Holds p e) (hr : d.Reachable limits s) (hrevised : p.Revised s e) :
    (∃ t, s.tasks.find? e.taskId = some t ∧ e.workRevision = t.workRevision) ∧
      ∃ g, s.latestSegment e.taskId = some g := by
  have hrows := revised_of_reachable hr
  have hbound := bound_of_reachable hr
  have hseg : ∃ g ∈ s.segments, g.id = e.segmentId ∧ g.taskId = e.taskId := by
    obtain ⟨r, hrm, -, rfl⟩ | ⟨r, hrm, -, rfl⟩ := h
    · exact hrows.events r hrm
    · obtain ⟨c, hc, -, hcseg, hctask, -⟩ := hbound.reports r hrm
      obtain ⟨g, hg, hgid, hgt, -⟩ := hbound.capabilities c hc
      exact ⟨g, hg, hgid.trans hcseg.symm, hgt.trans hctask.symm⟩
  obtain ⟨g, hg, -, hgt⟩ := hseg
  obtain ⟨t, ht, htid⟩ := (slots_of_reachable hr).owned g hg
  have htask : t.id = e.taskId := htid.trans hgt
  refine ⟨⟨t, Table.find?_eq_some.mpr ⟨ht, htask⟩, ?_⟩, ?_⟩
  · obtain ⟨r, hrm, rfl, rfl⟩ | ⟨r, hrm, -, rfl⟩ := h
    · exact hrevised rfl t ht htask
    · obtain ⟨c, hc, hcid, hcrev⟩ := hrows.reports r hrm
      obtain ⟨c', hc', hcid', -, hctask, -⟩ := hbound.reports r hrm
      obtain rfl : c = c' := Table.eq_of_key hc hc' (hcid.trans hcid'.symm)
      obtain ⟨u, hu, huid, hurev⟩ := hrows.capabilities c hc
      obtain rfl : u = t := Table.eq_of_key hu ht (huid.trans (hctask.symm.trans htask.symm))
      exact hcrev.trans hurev.symm
  · cases hlast : s.latestSegment e.taskId with
    | some k => exact ⟨k, rfl⟩
    | none =>
      have hnil := List.filter_eq_nil_iff.mp (List.argmax_eq_none.mp hlast) g hg
      simp [hgt] at hnil

/-- An event that was acted on is acknowledged as handled exactly if its segment is still the
task's latest, or its retry or review is on record, or its question's round is not over. -/
theorem handled_iff (hr : d.Reachable limits s) (hhash : ∀ x, d.runtimeHash x ≠ "")
    (hapart : EventsApart d s) (h : s.Holds p e) (hst : p.status = .pending)
    (hrevised : p.Revised s e) (hperformed : s.Performed p e)
    (hcall : HandledCall d s p e deliveryId proof a) :
    (∃ s', d.ackDecisions s e.taskId deliveryId proof [a] = .ok (s', ())) ↔
      (s.latestSegment e.taskId).map Segment.id = some e.segmentId ∨ s.Underway p e := by
  rw [ackDecisions_handled hr hapart h hst hcall,
    ← hasBoundBusinessEffect_iff hr hhash hapart h hperformed hcall.names]
  obtain ⟨⟨t, ht, hrev⟩, g, hg⟩ := h.task hr hrevised
  rw [DB.ackCurrent, if_pos (.inl hcall.decision), ht, hg, expect_some, ok_bind, expect_some,
    ok_bind, require_pos hrev, ok_bind, require_ok, Option.map_some, Option.some.injEq,
    and_iff_right hcall.decision]

end Acknowledgement

/-! ## Later states -/

/-- The operation is the exit that resolves the question of the event, of the segment that was
resumed with its answer. -/
def EndsRound (s : State) (e : Event) (op : Op) : Prop :=
  ∃ x g, Exits op x g ∧ g ∈ s.segments ∧ g.active = true ∧ x.taskId = e.taskId ∧
    x.attemptId = e.attemptId ∧ ∃ q ∈ s.questions, q.static = openQuestion e ∧
      q.status = .resumeStarted

section Later
variable {d : DB} {s s' : State} {op : Op} {limits : ConcurrencyLimits} {p : Delivery} {e : Event}

theorem exec_keeps_review (hr : d.Reachable limits s) {row : ReviewDecision}
    (hm : row ∈ s.reviewDecisions) (hx : d.exec s op = .ok s') : row ∈ s'.reviewDecisions := by
  obtain hsame | ⟨spec, rfl⟩ := (exec_writes hx).reviews
  · exact hsame ▸ hm
  · obtain ⟨receipt, h⟩ := committed_ok.mp hx
    obtain rfl | ⟨p, e, row', -, -, -, hi⟩ := reviewResult_source (logged_of_reachable hr) h
    · exact hm
    · exact (Table.mem_insert hi).mpr (.inl hm)

theorem State.Underway.exec (h : s.Underway p e) (hr : d.Reachable limits s)
    (hx : d.exec s op = .ok s') (hends : ¬ EndsRound s e op) : s'.Underway p e := by
  obtain (⟨row, hm, hid⟩ | ⟨row, hm, hid⟩) | ⟨hkind, q, hq, hstatic, hopen, hresolved⟩ := h
  · exact .inl (.inl ⟨row, exec_keeps_retry hm hx, hid⟩)
  · exact .inl (.inr ⟨row, exec_keeps_review hr hm hx, hid⟩)
  · refine .inr ⟨hkind, ?_⟩
    obtain hq' | ⟨t, place, -, -, -, -, -, hstart⟩ | ⟨x, g, hg, ha, hexit, hround⟩ :=
      (exec_effect (bound_of_reachable hr) hx).keeps_question (slots_of_reachable hr) hq hopen
    · exact ⟨q, hq', hstatic, hopen, hresolved⟩
    · rw [hstart]
      by_cases hcarried : (s.resumedQuestion t place).map Question.questionId = some q.questionId ∧
          q.status = .resumeQueued
      · refine ⟨q.started, Table.mem_update.mpr ⟨q, hq, ?_⟩, hstatic, nofun, nofun⟩
        rw [Table.patch_pos (by simp [hcarried])]
        rfl
      · refine ⟨q, Table.mem_update_of_not (h := by intro _; rfl) hq ?_, hstatic, hopen, hresolved⟩
        simpa using hcarried
    · rw [hround]
      refine ⟨q, Table.mem_update_of_not (h := by intro _; rfl) hq ?_, hstatic, hopen, hresolved⟩
      obtain ⟨-, htask, hattempt, -⟩ := static_openQuestion hstatic
      have hother : ¬ (q.taskId = x.taskId ∧ q.attemptId = x.attemptId ∧
          q.status = .resumeStarted) := fun ⟨h1, h2, h3⟩ =>
        hends ⟨x, g, hexit, hg, ha, h1.symm.trans htask, h2.symm.trans hattempt, q, hq, hstatic, h3⟩
      simpa [and_assoc] using hother

theorem underway_run (hr : d.Reachable limits s) (h : s.Underway p e) {more : List Op}
    (hspared : AllSteps d.step (fun s op => (d.exec s op).isOk = true →
      ¬ EndsRound s e op) s more) :
    (d.run s more).Underway p e := by
  have hall : d.Reachable limits (d.run s more) ∧ (d.run s more).Underway p e := by
    refine run_invariant_when (I := fun s : State => d.Reachable limits s ∧ s.Underway p e)
      ⟨hr, h⟩ ?_ hspared
    intro s op ⟨hr, h⟩ hc
    refine ⟨reachable_step op hr, ?_⟩
    refine step_induct (P := fun s' : State => s'.Underway p e) h fun s' hx => ?_
    exact h.exec hr hx (hc (by rw [hx]; rfl))
  exact hall.2

end Later

/-- An event that was acted on can be acknowledged as handled exactly as long as its segment is
the task's latest, or its retry or review is on record, or the round of its question is not over;
and what was acted on stays so in every later state, as long as no exit ends that round. -/
theorem handled_acknowledged (d : DB) (limits : ConcurrencyLimits) (ops : List Op)
    (hhash : ∀ x, d.runtimeHash x ≠ "") (p : Delivery) (e : Event) :
    (∀ deliveryId proof a, (d.run (State.fresh limits) ops).Holds p e → p.status = .pending →
      EventsApart d (d.run (State.fresh limits) ops) →
      p.Revised (d.run (State.fresh limits) ops) e →
      (d.run (State.fresh limits) ops).Performed p e →
      HandledCall d (d.run (State.fresh limits) ops) p e deliveryId proof a →
        ((∃ s', d.ackDecisions (d.run (State.fresh limits) ops) e.taskId deliveryId proof [a] =
            .ok (s', ())) ↔
          ((d.run (State.fresh limits) ops).latestSegment e.taskId).map Segment.id =
              some e.segmentId ∨
            (d.run (State.fresh limits) ops).Underway p e)) ∧
    ((d.run (State.fresh limits) ops).Underway p e → ∀ more,
      AllSteps d.step (fun s op => (d.exec s op).isOk = true → ¬ EndsRound s e op)
        (d.run (State.fresh limits) ops) more →
      ∀ s, s = d.run (d.run (State.fresh limits) ops) more → s.Holds p e → p.status = .pending →
        EventsApart d s → p.Revised s e → ∀ deliveryId proof a,
          HandledCall d s p e deliveryId proof a →
            ∃ s', d.ackDecisions s e.taskId deliveryId proof [a] = .ok (s', ())) := by
  have hr : d.Reachable limits (d.run (State.fresh limits) ops) := ⟨ops, rfl⟩
  refine ⟨fun deliveryId proof a h hst hapart hrevised hperformed hcall =>
    handled_iff hr hhash hapart h hst hrevised hperformed hcall, ?_⟩
  rintro hunder more hspared s rfl h hst hapart hrevised deliveryId proof a hcall
  have hlater := underway_run hr hunder hspared
  have hperformed : (d.run (d.run (State.fresh limits) ops) more).Performed p e :=
    hlater.imp id fun ⟨hkind, q, hq, hstatic, hopen, _⟩ => ⟨hkind, q, hq, hstatic, hopen⟩
  exact (handled_iff (run_grows hr more).2 hhash hapart h hst hrevised hperformed hcall).mpr
    (.inr hlater)

/-! ## A question whose round is over -/

/-- The question of the first claim, and the request that calls it handled. -/
def toyQuestion : Event := toyEvent "a" 11 1 .question

def toyHandled : AckDecision where
  eventId := "host:1"
  eventRevision := 1
  eventHash := toyQuestion.payloadHash
  actionSlot := toyDB.actionSlot "host" "host:1"
  decision := "handled"
  commandId := "command"

/-- The question is answered, and its task runs again. -/
def resumedOps : List Op := answeredOps ++ [Op.claimReady (toyEnv 12) "host" 1 0]

/-- And the resumed segment exits. -/
def roundOps : List Op :=
  resumedOps ++ [Op.commitHostEvent (toyEnv 13) (toyEventOf "a" 11 12 3 .exited)]

/-- What the two runs have in common, in a form to be evaluated. -/
def toyAsked (s : State) : Prop :=
  (∃ r ∈ s.runtimeEvents.rows, r.delivery = (toyDB.runtimeEventRow toyQuestion).delivery ∧
    r.body = toyQuestion) ∧
  (∃ q ∈ s.questions.rows, q.static = openQuestion toyQuestion ∧ q.status ≠ .open) ∧
  (∀ t ∈ s.tasks.rows, toyQuestion.workRevision = t.workRevision) ∧
  (∀ p ∈ s.deliveries, ∀ p' ∈ s.deliveries,
    (toyDB.actionSlot p.producer p.eventId = toyDB.actionSlot p'.producer p'.eventId →
      p.producer = p'.producer ∧ p.eventId = p'.eventId) ∧
    (p.producer = p'.producer → p.fromReport = p'.fromReport) ∧
    (p.eventId = p'.eventId → p.fromReport = p'.fromReport)) ∧
  s.deliveryReceipts.rows = [] ∧ s.runtimeDecisions.rows = [] ∧ toyHandled.valid ∧
  validDigest (toyDigest "proof") = true

instance (s : State) : Decidable (toyAsked s) := inferInstanceAs (Decidable (_ ∧ _))

theorem toyAsked_spec {s : State} (h : toyAsked s) :
    s.Holds (toyDB.runtimeEventRow toyQuestion).delivery toyQuestion ∧ EventsApart toyDB s ∧
      (toyDB.runtimeEventRow toyQuestion).delivery.Revised s toyQuestion ∧
      s.Performed (toyDB.runtimeEventRow toyQuestion).delivery toyQuestion ∧
      HandledCall toyDB s (toyDB.runtimeEventRow toyQuestion).delivery toyQuestion "delivery"
        (toyDigest "proof") toyHandled := by
  obtain ⟨⟨r, hr, hp, hbody⟩, ⟨q, hq, hstatic, hopen⟩, hrev, hapart, hnone, hfresh, hvalid,
    hproof⟩ := h
  refine ⟨.inl ⟨r, hr, hp, hbody⟩, ⟨⟨?_, ?_⟩, ?_⟩, fun _ t ht _ => hrev t ht,
    .inr ⟨rfl, q, hq, hstatic, hopen⟩, ⟨⟨rfl, rfl, rfl, rfl⟩, rfl, hvalid, by decide, hproof,
      ⟨by decide, ?_⟩, ?_⟩⟩
  · exact fun p hp p' hp' => (hapart p hp p' hp').1
  · exact fun p hp p' hp' => (hapart p hp p' hp').2.1
  · exact fun p hp p' hp' => (hapart p hp p' hp').2.2
  · intro row hm
    rw [hnone] at hm
    cases hm
  · intro row hm
    rw [hfresh] at hm
    cases hm

/-- Once the resumed segment has exited, the answered question is still pending and can no
longer be acknowledged as handled. -/
theorem answered_never_handled : ∃ p e a, p.status = .pending ∧
    (toyDB.run (State.fresh {}) roundOps).Holds p e ∧
    EventsApart toyDB (toyDB.run (State.fresh {}) roundOps) ∧
    p.Revised (toyDB.run (State.fresh {}) roundOps) e ∧
    (toyDB.run (State.fresh {}) roundOps).Performed p e ∧
    HandledCall toyDB (toyDB.run (State.fresh {}) roundOps) p e "delivery" (toyDigest "proof") a ∧
    (toyDB.ackDecisions (toyDB.run (State.fresh {}) roundOps) e.taskId "delivery"
      (toyDigest "proof") [a]).isOk = false := by
  have hfacts : toyAsked (toyDB.run (State.fresh {}) roundOps) ∧
      (toyDB.ackDecisions (toyDB.run (State.fresh {}) roundOps) toyQuestion.taskId "delivery"
        (toyDigest "proof") [toyHandled]).isOk = false := by decide +kernel
  obtain ⟨hholds, hapart, hrevised, hperformed, hcall⟩ := toyAsked_spec hfacts.1
  exact ⟨_, _, toyHandled, rfl, hholds, hapart, hrevised, hperformed, hcall, hfacts.2⟩

theorem toyDigest_ne_empty (text : String) : toyDigest text ≠ "" := by
  unfold toyDigest
  generalize text.toList.foldl (fun n c => n * 1114112 + c.toNat + 1) 0 = n
  rw [hexDigits, Ne, String.ofList_eq_empty_iff]
  exact List.cons_ne_nil _ _

/-- While it runs, the question is acknowledged as handled. -/
theorem answered_handled : ∃ p e a, HandledCall toyDB (toyDB.run (State.fresh {}) resumedOps) p e
      "delivery" (toyDigest "proof") a ∧
    ∃ s', toyDB.ackDecisions (toyDB.run (State.fresh {}) resumedOps) e.taskId "delivery"
      (toyDigest "proof") [a] = .ok (s', ()) := by
  have hfacts : toyAsked (toyDB.run (State.fresh {}) resumedOps) ∧
      ∃ q ∈ (toyDB.run (State.fresh {}) answeredOps).questions.rows,
        q.static = openQuestion toyQuestion ∧ q.status ≠ .open ∧ q.status ≠ .resolved := by
    decide +kernel
  obtain ⟨hasked, q, hq, hstatic, hopen, hresolved⟩ := hfacts
  obtain ⟨hholds, hapart, hrevised, hperformed, hcall⟩ := toyAsked_spec hasked
  have hspared : AllSteps toyDB.step
      (fun s op => (toyDB.exec s op).isOk = true → ¬ EndsRound s toyQuestion op)
      (toyDB.run (State.fresh {}) answeredOps) [.claimReady (toyEnv 12) "host" 1 0] := by
    refine ⟨fun _ => ?_, trivial⟩
    rintro ⟨x, g, ⟨hevent, -⟩, -⟩
    cases hevent
  have hrun : toyDB.run (State.fresh {}) resumedOps = toyDB.run (toyDB.run (State.fresh {})
      answeredOps) [.claimReady (toyEnv 12) "host" 1 0] := run_append
  have hunder : (toyDB.run (State.fresh {}) answeredOps).Underway
      (toyDB.runtimeEventRow toyQuestion).delivery toyQuestion :=
    .inr ⟨rfl, q, hq, hstatic, hopen, hresolved⟩
  refine ⟨(toyDB.runtimeEventRow toyQuestion).delivery, toyQuestion, toyHandled, hcall, ?_⟩
  exact (handled_acknowledged toyDB {} answeredOps toyDigest_ne_empty
    (toyDB.runtimeEventRow toyQuestion).delivery toyQuestion).2 hunder
      [.claimReady (toyEnv 12) "host" 1 0] hspared (toyDB.run (State.fresh {}) resumedOps) hrun
      hholds rfl hapart hrevised "delivery" (toyDigest "proof") toyHandled hcall

end Orchestrator.Store
