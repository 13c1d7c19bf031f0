import Orchestrator.Invariants.Binding

/-!
# Questions

What an accepted operation does to the questions of tasks: an event of the Host
or a report of the worker asks one, an answer queues its round, a claim starts
the round, and the exit of the segment resolves it.
-/
namespace Orchestrator.Store
open Library

/-- An event was committed under this producer and sequence. -/
def State.Committed (s : State) (e : Event) : Prop :=
  ∃ r ∈ s.runtimeEvents.rows, r.producerId = e.producerId ∧ r.sequence = e.sequence

instance (s : State) (e : Event) : Decidable (s.Committed e) :=
  inferInstanceAs (Decidable (∃ r ∈ s.runtimeEvents.rows, _))

/-- The segment and the revision of the question a worker's report asks at once,
or of the one a session event lets go. -/
def DB.reportedQuestion (d : DB) (s : State) : Op → Option (String × Int)
  | .commitReportEvent _ _ spec => do
    let c ← s.reportCapabilities.find? spec.capabilityId
    let payload ← d.canonicalReportPayload spec.payload
    let e ← (d.decodeReportPayload .question payload).toOption
    if spec.kind = "question" ∧ (s.sessions.find? c.segmentId).isSome = true then
      some (c.segmentId, e.questionRevision)
    else none
  | .commitHostEvent _ e =>
    if e.kind = .session then
      (s.pendingReportQuestion e.segmentId).map fun r => (e.segmentId, r.body.questionRevision)
    else none
  | _ => none

/-- The operation is no exit of an active segment. -/
def Spares (op : Op) (s : State) : Prop :=
  ∀ e g, Exits op e g → g ∈ s.segments → g.active = false

/-- The rounds an exit resolves. -/
def resolveRounds (questions : Table Question.questionId) (e : Event) :
    Table Question.questionId :=
  questions.update
    (fun q => q.taskId = e.taskId && q.attemptId = e.attemptId && q.status = .resumeStarted)
    (fun q => { q with status := .resolved }) (Table.keeps Question.questionId)

/-- What becomes of the questions while no segment exits. -/
inductive Asked (d : DB) (op : Op) (s s' : State) : Prop
  | keep (h : s'.questions = s.questions)
  | ask {e : Event} {g : Segment} (hg : g ∈ s.segments) (ha : g.active = true) (he : Names e g)
      (hrev : 1 ≤ e.questionRevision)
      (hsrc : (op.event = some e ∧ e.kind = .question) ∨
        d.reportedQuestion s op = some (e.segmentId, e.questionRevision))
      (h : s.questions.insert? (openQuestion e) = some s'.questions)
  | answer {spec : AnswerSpec} {hash : String} (hop : op = .answerQuestion spec)
      (h : s'.questions = s.questions.update
        (fun q => q.questionId = spec.questionId && q.status = .open)
        (fun q => { q with
          status := .resumeQueued, answerHash := hash, answerText := spec.answer }))
  | start {t : Task} {place : Placement} {g : Segment} (ht : t ∈ s.tasks)
      (hc : t.status.claimable = true) (hg : g ∈ s'.segments) (ha : g.active = true)
      (htask : g.taskId = t.id) (hattempt : g.attemptId = place.attemptId)
      (h : s'.questions = startResume s.questions (s.resumedQuestion t place))

inductive Inquiry (d : DB) (op : Op) (s s' : State) : Prop
  | idle (h : s' = s)
  | spare (hop : Spares op s) (h : Asked d op s s')
  | resolve {e : Event} {g : Segment} (hg : g ∈ s.segments) (ha : g.active = true)
      (he : Exits op e g) (hx : ∀ g' ∈ s'.segments, g'.id = g.id → g'.active = false)
      (h : s'.questions = resolveRounds s.questions e)

def RuntimeEvent.slot (r : RuntimeEvent) : String × Int := (r.producerId, r.sequence)

/-- Questions and committed sequences are as they were. -/
structure Unasked (s s' : State) : Prop where
  questions : s'.questions = s.questions
  log : s'.runtimeEvents.rows.map RuntimeEvent.slot = s.runtimeEvents.rows.map RuntimeEvent.slot

/-- What an accepted operation does: a step of the scheduling rows that leaves a
bound state, a step of the questions, and at most new entries in the log. -/
structure Effect (d : DB) (op : Op) (x : Option String) (s s' : State) : Prop where
  step : Step d op x s.toCore s'.toCore
  bound : Bound s'
  inquiry : Inquiry d op s s'
  log : ∀ e, s.Committed e → s'.Committed e

section Frames
variable {d : DB} {op : Op} {s s' s'' : State}

theorem Unasked.refl (s : State) : Unasked s s := ⟨rfl, rfl⟩

theorem Unasked.trans (h : Unasked s s') (h' : Unasked s' s'') : Unasked s s'' :=
  ⟨h'.questions.trans h.questions, h'.log.trans h.log⟩

theorem committed_of_log
    (h : s'.runtimeEvents.rows.map RuntimeEvent.slot = s.runtimeEvents.rows.map RuntimeEvent.slot)
    (e : Event) (he : s.Committed e) : s'.Committed e := by
  obtain ⟨r, hr, hp, hs⟩ := he
  obtain ⟨r', hr', heq⟩ := List.mem_map.mp (h ▸ List.mem_map_of_mem hr)
  simp only [RuntimeEvent.slot, Prod.mk.injEq] at heq
  exact ⟨r', hr', heq.1.trans hp, heq.2.trans hs⟩

theorem Unasked.committed (h : Unasked s s') (e : Event) (he : s.Committed e) :
    s'.Committed e := committed_of_log h.log e he

theorem spares_of_event (h : op.event = none) : Spares op s := by
  rintro e g ⟨he, -⟩ -
  rw [h] at he
  cases he

/-- No other event than an exit of the segment it names exits a segment. -/
theorem spares_commit {env : Env} {e : Event}
    (h : e.kind = .exited → ∀ g ∈ s.segments, g.id = e.segmentId → g.active = false) :
    Spares (.commitHostEvent env e) s := by
  rintro e' g ⟨he, hk, hid, -⟩ hg
  obtain rfl : e = e' := Option.some.inj he
  exact h hk g hg hid.symm

end Frames

/-! ## Events -/

section Events
variable {d : DB} {op : Op} {env : Env} {s₀ s s' : State} {e : Event}

/-- A question that is applied is asked of an active segment, or changes nothing. -/
theorem applyQuestion_asked {s₁ : State} (hsegs : s.segments = s₀.segments)
    (hq : s.questions = s₀.questions) (hn : ∀ g ∈ s₀.segments, g.id = e.segmentId → Names e g)
    (hsrc : (op.event = some e ∧ e.kind = .question) ∨
      d.reportedQuestion s₀ op = some (e.segmentId, e.questionRevision))
    (h : applyQuestion s e = .ok s₁) (hq' : s'.questions = s₁.questions) : Asked d op s₀ s' := by
  obtain rfl | ⟨g, questions, hg, ha, hrev, hi, rfl⟩ := applyQuestion_cases h
  · exact .keep (hq'.trans hq)
  · obtain ⟨hm, hid⟩ := Table.find?_eq_some.mp hg
    rw [hsegs] at hm
    exact .ask hm ha (hn g hm hid) hrev hsrc (by rw [hq', ← hq, hi])

theorem ensureQuestionStop_unasked (h : ensureQuestionStop env s e = .ok s') : Unasked s s' := by
  obtain rfl | ⟨g, stops, -, -, -, rfl⟩ := ensureQuestionStop_cases h <;> exact ⟨rfl, rfl⟩

theorem applyQuestion_log (h : applyQuestion s e = .ok s') :
    s'.runtimeEvents = s.runtimeEvents := by
  obtain rfl | ⟨g, questions, -, -, -, -, rfl⟩ := applyQuestion_cases h <;> rfl

theorem materialize_asked {segmentId kind id : String} (hb : Bound s₀)
    (hsegs : s.segments = s₀.segments) (hq : s.questions = s₀.questions)
    (hr : s.reportEvents = s₀.reportEvents) (hc : s.reportCapabilities = s₀.reportCapabilities)
    (hsrc : ∀ r, s₀.pendingReportQuestion segmentId = some r →
      d.reportedQuestion s₀ op = some (segmentId, r.body.questionRevision))
    (h : materializePendingReportQuestion env s segmentId kind id = .ok s') :
    Asked d op s₀ s' ∧ s'.runtimeEvents.rows.map RuntimeEvent.slot =
      s.runtimeEvents.rows.map RuntimeEvent.slot := by
  have hpending : s.pendingReportQuestion segmentId = s₀.pendingReportQuestion segmentId := by
    unfold State.pendingReportQuestion
    rw [hr, hc]
  obtain ⟨-, rfl⟩ | ⟨r, c, order, s₁, hpend, -, hseg, -, h₁, h₂⟩ :=
    materialize_cases h
  · exact ⟨.keep hq, rfl⟩
  · rw [hpending] at hpend
    have hm : r ∈ s₀.reportEvents := (List.mem_filter.mp (List.argmin_mem hpend)).1
    have hu := ensureQuestionStop_unasked h₂
    refine ⟨applyQuestion_asked (s := { s with reportEvents := _, deliveryOrder := order }) hsegs hq
      ?_ (.inr ?_) h₁ hu.questions, ?_⟩
    · exact fun g hg hid => hb.report_names hm hg hid
    · rw [hsrc r hpend, hseg]
    · rw [hu.log, applyQuestion_log h₁]

theorem applySession_asked (hb : Bound s₀) (hsegs : s.segments = s₀.segments)
    (hq : s.questions = s₀.questions) (hr : s.reportEvents = s₀.reportEvents)
    (hc : s.reportCapabilities = s₀.reportCapabilities)
    (hsrc : ∀ r, s₀.pendingReportQuestion e.segmentId = some r →
      d.reportedQuestion s₀ op = some (e.segmentId, r.body.questionRevision))
    (h : applySession env s e = .ok s') :
    Asked d op s₀ s' ∧ s'.runtimeEvents.rows.map RuntimeEvent.slot =
      s.runtimeEvents.rows.map RuntimeEvent.slot := by
  obtain rfl | ⟨row, sessions, -, -, h⟩ := applySession_cases h
  · exact ⟨.keep hq, rfl⟩
  · exact materialize_asked (s := { s with sessions := sessions }) hb hsegs hq hr hc hsrc h

theorem settle_inactive {c : Core} {id : String} {used : Int} {g : Segment}
    (hg : g ∈ (c.settle id used).segments) (hid : g.id = id) : g.active = false := by
  simp only [Core.settle, Core.updateSegment, Core.updateSegments] at hg
  obtain ⟨k, -, rfl⟩ := Table.mem_update.mp hg
  unfold Table.patch at hid ⊢
  split
  · rfl
  · rename_i hsel
    rw [if_neg hsel] at hid
    simp [hid] at hsel

theorem afterExit_segments {c c' : Core} {taskId : String} {status : TaskStatus}
    (h : c.afterExit taskId status = .ok c') : c'.segments = c.segments := by
  unfold Core.afterExit at h
  split at h
  · cases h; exact (releaseReady_released _).segments
  · obtain ⟨-, -, -, ⟨-, rfl⟩ | ⟨-, rfl⟩⟩ := blockIfExhausted_cases h <;> rfl
  · cases h; rfl

/-- An event that is applied asks, lets a report ask, resolves a round, or does none of these. -/
theorem applyEvent_inquiry (hb : Bound s₀) (hsegs : s.segments = s₀.segments)
    (hq : s.questions = s₀.questions) (hr : s.reportEvents = s₀.reportEvents)
    (hc : s.reportCapabilities = s₀.reportCapabilities)
    (hn : ∀ g ∈ s₀.segments, g.id = e.segmentId → Names e g)
    (h : d.applyEvent env s e = .ok s') :
    Inquiry d (.commitHostEvent env e) s₀ s' ∧ s'.runtimeEvents.rows.map RuntimeEvent.slot =
      s.runtimeEvents.rows.map RuntimeEvent.slot := by
  have hspare : e.kind ≠ .exited → Spares (.commitHostEvent env e) s₀ := fun hk =>
    spares_commit fun hx => absurd hx hk
  unfold DB.applyEvent at h
  split at h <;> rename_i hk <;> rw [hk] at hspare
  · cases h; exact ⟨.spare (hspare (by simp)) (.keep hq), rfl⟩
  · cases h; exact ⟨.spare (hspare (by simp)) (.keep hq), rfl⟩
  · cases h; exact ⟨.spare (hspare (by simp)) (.keep hq), rfl⟩
  · have hsrc : ∀ r, s₀.pendingReportQuestion e.segmentId = some r →
        d.reportedQuestion s₀ (.commitHostEvent env e) =
          some (e.segmentId, r.body.questionRevision) := fun r hpend => by
      rw [DB.reportedQuestion, if_pos hk, hpend]; rfl
    exact (applySession_asked hb hsegs hq hr hc hsrc h).imp_left (.spare (hspare (by simp)))
  · refine ⟨.spare (hspare (by simp)) ?_, by rw [applyQuestion_log h]⟩
    exact applyQuestion_asked hsegs hq hn (.inl ⟨rfl, hk⟩) h rfl
  · cases h; exact ⟨.spare (hspare (by simp)) (.keep hq), rfl⟩
  · cases h; exact ⟨.spare (hspare (by simp)) (.keep hq), rfl⟩
  · cases h; exact ⟨.spare (hspare (by simp)) (.keep hq), rfl⟩
  · cases h; exact ⟨.spare (hspare (by simp)) (.keep hq), rfl⟩
  · obtain ⟨g, hg, hcases⟩ := applyExit_cases h
    obtain ⟨hm, hid⟩ := Table.find?_eq_some.mp hg
    rw [hsegs] at hm
    obtain ⟨hexit, rfl⟩ | ⟨hact, t, core, -, hcore, rfl⟩ := hcases
    · refine ⟨.spare (spares_commit fun _ k hk' hkid => ?_) (.keep hq), rfl⟩
      obtain rfl : k = g := Table.eq_of_key hk' hm (hkid.trans hid.symm)
      rw [Segment.active, hexit]; rfl
    · refine ⟨.resolve hm (Segment.active_iff.mpr hact) ⟨rfl, hk, hn g hm hid⟩
        (fun g' hg' hid' => ?_)
        (by rw [← hq]; rfl), rfl⟩
      rw [afterExit_segments hcore] at hg'
      exact settle_inactive hg' (hid'.trans hid)
  · cases h

theorem appendEvent_committed (h : d.appendEvent s e = .ok s') :
    s'.Committed e ∧ ∀ e', s.Committed e' → s'.Committed e' := by
  simp only [DB.appendEvent, bind_ok_iff, expect_ok, Except.ok.injEq] at h
  obtain ⟨events, hi, order, -, rfl⟩ := h
  refine ⟨⟨_, (Table.mem_insert hi).mpr (.inr rfl), rfl, rfl⟩, fun e' he => ?_⟩
  obtain ⟨r, hr, hx⟩ := he
  exact ⟨r, (Table.mem_insert hi).mpr (.inl hr), hx⟩

theorem commitHostEvent_effect {ack : DurableAck} (hb : Bound s)
    (h : d.commitHostEvent env s e = .ok (s', ack)) :
    Effect d (.commitHostEvent env e) (s.ended (.commitHostEvent env e)) s s' ∧
      s'.Committed e := by
  obtain ⟨hm, hb'⟩ := commitHostEvent_move hb h
  obtain ⟨⟨r, hr, hx⟩, rfl⟩ | ⟨-, g, s₁, hg, hid, hbound, h₁, h₂⟩ := commitHostEvent_cases h
  · exact ⟨⟨.move hm, hb', .idle rfl, fun _ h => h⟩, r, hr, hx⟩
  · obtain ⟨hnew, hlog⟩ := appendEvent_committed h₁
    obtain ⟨events, order, usage, rfl⟩ := appendEvent_frame h₁
    obtain ⟨hi, hu⟩ := applyEvent_inquiry (s := { s with
      runtimeEvents := events, deliveryOrder := order, storageUsage := usage }) hb rfl rfl rfl rfl
      (names_of_bound hg hid hbound) h₂
    exact ⟨⟨.move hm, hb', hi, fun e' he => committed_of_log hu e' (hlog e' he)⟩,
      committed_of_log hu e hnew⟩

end Events

/-! ## Reports -/

section Reports
variable {d : DB} {env : Env} {s s' : State} {spec : ReportEventSpec}

theorem commitReportEvent_effect {probe : ArtifactProbe} {ack : DurableAck} (hb : Bound s)
    (h : d.commitReportEvent env probe s spec = .ok (s', ack)) :
    Effect d (.commitReportEvent env probe spec) none s s' := by
  obtain ⟨hm, hb'⟩ : Move d (.commitReportEvent env probe spec) none s.toCore s'.toCore ∧
    Bound s' :=
    commitReportEvent_move hb h
  have hspare : Spares (.commitReportEvent env probe spec) s := spares_of_event rfl
  obtain rfl | ⟨c, kind, payload, payloadHash, e₀, e, s₁, hc, hid, -, hkind, hpayload, hdec, rfl, -,
    h₁, h₂⟩ := commitReportEvent_cases h
  · exact ⟨.move hm, hb', .idle rfl, fun _ h => h⟩
  · obtain ⟨row, events, order, usage, -, -, -, rfl⟩ := appendReport_frame h₁
    rcases h₂ with ⟨-, rfl⟩ | ⟨hq, hses, s₂, hask, hstop⟩
    · exact ⟨.move hm, hb', .spare hspare (.keep rfl), fun _ h => h⟩
    · subst hq
      have hu := ensureQuestionStop_unasked hstop
      have hsession : (s.sessions.find? c.segmentId).isSome = true := by
        cases hf : s.sessions.find? c.segmentId with
        | some _ => rfl
        | none => rw [hf] at hses; exact absurd rfl hses
      have htext : spec.kind = "question" := by
        unfold parseReportKind at hkind
        split at hkind <;> first | assumption | cases hkind
      have hsrc : d.reportedQuestion s (.commitReportEvent env probe spec) =
          some (c.segmentId, e₀.questionRevision) := by
        simp only [DB.reportedQuestion, ← hid, Table.find?_of_mem hc, hpayload, hdec,
          Except.toOption, Option.bind_eq_bind, Option.bind_some, if_pos (And.intro htext hsession)]
      refine ⟨.move hm, hb', .spare hspare (applyQuestion_asked (s := { s with
        reportEvents := events, storageUsage := usage, deliveryOrder := order,
        reportCapabilities := _ }) rfl rfl (fun g hg hgid => ?_) (.inr hsrc) hask hu.questions),
        fun e he => ?_⟩
      · obtain ⟨k, hk, h1, h2, h3⟩ := hb.capabilities c hc
        obtain rfl : g = k := Table.eq_of_key hg hk (hgid.trans h1.symm)
        exact ⟨h1.symm, h2.symm, h3.symm⟩
      · exact committed_of_log (by rw [hu.log, applyQuestion_log hask]) e he

theorem registerReportCapability_effect {info : Option FileInfo} {r : ReportCapabilityRegistration}
    {ack : DurableAck} (hb : Bound s) (h : d.registerReportCapability s info r = .ok (s', ack)) :
    Effect d (.registerReportCapability info r) none s s' := by
  obtain ⟨hm, hb'⟩ : Move d (.registerReportCapability info r) none s.toCore s'.toCore ∧ Bound s' :=
    registerReportCapability_move hb h
  simp only [DB.registerReportCapability, bind_ok_iff, require_ok, expect_ok, exists_const,
    Except.ok.injEq, Prod.mk.injEq] at h
  obtain ⟨-, _, -, -, c, -, host, -, -, -, -, rfl, -⟩ := h
  exact ⟨.move hm, hb', .spare (spares_of_event rfl) (.keep rfl), fun _ h => h⟩

end Reports
end Orchestrator.Store
