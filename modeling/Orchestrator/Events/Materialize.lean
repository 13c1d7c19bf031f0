import Orchestrator.Events.Held
import Orchestrator.Events.Next

/-!
# Reported questions and the session they wait for

A report that is held back was accepted without a look at the questions, the
outcome and the stop row it will meet. They are checked inside the transaction
of the Host's session event, which they turn away when they do not fit.
-/
namespace Orchestrator.Store
open Library

/-- A stop row the segment may ask beside: none, where one can be inserted, or
one that waits for the answer. -/
def State.StopsForQuestion (s : State) (env : Env) (g : Segment) : Prop :=
  (∀ stop ∈ s.stops.find? g.id, stop.reason = waitingQuestion) ∧
    (s.stops.find? g.id = none →
      g.status.launched = true ∧ s.stops.Unused StopRow.commandId (env.newId "stop"))

/-- What the held back question of a segment meets when its session arrives. -/
structure Askable (env : Env) (s : State) (g : Segment) (r : ReportEvent) : Prop where
  active : g.active = true
  undecided : g.outcome = .none
  id : s.questions.Unused Question.questionId r.body.questionId
  revision : s.revisionUnused r.body.taskId r.body.questionRevision
  delivery : s.deliveryOrder.Unused DeliveryOrder.eventId r.eventId
  stop : s.StopsForQuestion env g

/-- The question of the report is open, under the session of the event. -/
def State.Materialized (s : State) (r : ReportEvent) (e : Event) : Prop :=
  openQuestion (r.released e.sessionKind e.sessionId).body ∈ s.questions ∧
    r.released e.sessionKind e.sessionId ∈ s.reportEvents

/-- A session event as the Host sends it, the first of its segment. -/
structure FirstSession (s : State) (e : Event) : Prop where
  kind : e.kind = .session
  sessionKind : e.sessionKind ≠ "" ∧ e.sessionKind.utf8ByteSize ≤ 64
  sessionId : e.sessionId ≠ "" ∧ e.sessionId.utf8ByteSize ≤ 512
  unnamed : s.runtimeEvents.Unused RuntimeEvent.eventId e.eventId
  first : s.sessions.find? e.segmentId = none

section Steps
variable {d : DB} {env : Env} {s s' : State} {e : Event} {g : Segment} {op : Op}

theorem unused_iff_insert {α κ : Type} [DecidableEq κ] {key : α → κ} {t : Table key} {a : α} :
    (∃ u, t.insert? a = some u) ↔ t.Unused key (key a) := by
  constructor
  · rintro ⟨u, hu⟩
    exact (Table.insert?_eq_some.mp hu).1
  · intro h
    obtain ⟨u, hu, -⟩ := Table.insert?_isSome h
    exact ⟨u, hu⟩

theorem applyQuestion_iff (hg : s.segments.find? e.segmentId = some g) (ha : g.active = true) :
    (∃ s', applyQuestion s e = .ok s') ↔
      (e.questionId ≠ "" ∧ 1 ≤ e.questionRevision ∧ e.sessionKind ≠ "" ∧ e.sessionId ≠ "") ∧
        s.revisionUnused e.taskId e.questionRevision ∧
          s.questions.Unused Question.questionId e.questionId ∧ g.outcome = .none := by
  have hx : g.status ≠ .exited := Segment.active_iff.mp ha
  have hins := unused_iff_insert (t := s.questions) (a := openQuestion e)
  simp only [applyQuestion, State.segment?, hg, bind_ok_iff, require_ok, expect_ok, exists_const,
    Option.some.injEq, exists_eq_left', if_neg hx]
  constructor
  · rintro ⟨s', hvalid, hrev, questions, hq, hout, -⟩
    exact ⟨hvalid, hrev, hins.mp ⟨questions, hq⟩, hout⟩
  · rintro ⟨hvalid, hrev, hid, hout⟩
    obtain ⟨questions, hq⟩ := hins.mpr hid
    exact ⟨_, hvalid, hrev, questions, hq, hout, rfl⟩

theorem ensureQuestionStop_iff (hg : s.segments.find? e.segmentId = some g) :
    (∃ s', ensureQuestionStop env s e = .ok s') ↔ s.StopsForQuestion env g := by
  obtain ⟨hm, hid⟩ := Table.find?_eq_some.mp hg
  unfold ensureQuestionStop State.StopsForQuestion
  rw [hid]
  cases hstop : s.stops.find? e.segmentId with
  | some stop =>
    simp only [bind_ok_iff, require_ok, exists_const, Except.ok.injEq, Option.mem_def,
      Option.some.injEq, forall_eq', reduceCtorEq, false_implies, and_true]
    exact ⟨fun ⟨_, h, _⟩ => h, fun h => ⟨s, h, rfl⟩⟩
  | none =>
    have hins := unused_iff_insert (t := s.stops) (a := (⟨env.newId "stop", g.hostId, g.id,
      waitingQuestion, env.now.stopDeadline, .pending, env.now.stamp⟩ : StopRow))
    have hfree : s.stops.Unused StopRow.segmentId g.id := by
      rw [hid]
      exact Table.find?_eq_none.mp hstop
    simp only [State.segment?, hg, State.insertStop, bind_ok_iff, require_ok, expect_ok,
      exists_const, Option.some.injEq, exists_eq_left', Option.ite_none_right_eq_some,
      Except.ok.injEq, Option.mem_def, reduceCtorEq, false_implies, implies_true, true_and,
      forall_const]
    constructor
    · rintro ⟨s', hl, stops, ⟨hun, -⟩, -⟩
      exact ⟨hl, hun⟩
    · rintro ⟨hl, hun⟩
      obtain ⟨stops, hi⟩ := hins.mpr hfree
      exact ⟨_, hl, stops, ⟨hun, hi⟩, rfl⟩

/-- The question that is asked is stored, and the stop finds the segment's status. -/
theorem applyQuestion_asks (h : applyQuestion s e = .ok s')
    (hg : s.segments.find? e.segmentId = some g) (ha : g.active = true) :
    openQuestion e ∈ s'.questions ∧ s'.stops = s.stops ∧ s'.reportEvents = s.reportEvents ∧
      s'.segments.find? e.segmentId = some { g with outcome := .question } := by
  have hx : g.status ≠ .exited := Segment.active_iff.mp ha
  simp only [applyQuestion, State.segment?, hg, bind_ok_iff, require_ok, expect_ok, exists_const,
    Option.some.injEq, exists_eq_left', if_neg hx, Except.ok.injEq] at h
  obtain ⟨-, -, questions, hq, hout, rfl⟩ := h
  refine ⟨(Table.mem_insert hq).mpr (.inr rfl), rfl, rfl, ?_⟩
  obtain ⟨-, hid⟩ := Table.find?_eq_some.mp hg
  simp only [Core.updateSegment, Core.updateSegments, Table.find?_update, hg, Option.map_some]
  rw [Table.patch_pos (by simp [hid, hx, hout])]

theorem ensureQuestionStop_keeps (h : ensureQuestionStop env s e = .ok s') :
    s'.questions = s.questions ∧ s'.reportEvents = s.reportEvents := by
  obtain ⟨core, stops, rfl⟩ := ensureQuestionStop_frame h
  exact ⟨rfl, rfl⟩

/-! ## Releasing the question -/

variable {r : ReportEvent} {sessionKind sessionId : String}

/-- A question that is released is open, and its report waits for delivery. -/
theorem materialize_materialized (hg : s.segments.find? g.id = some g) (ha : g.active = true)
    (hr : s.pendingReportQuestion g.id = some r)
    (h : materializePendingReportQuestion env s g.id sessionKind sessionId = .ok s') :
    openQuestion (r.released sessionKind sessionId).body ∈ s'.questions ∧
      r.released sessionKind sessionId ∈ s'.reportEvents := by
  obtain ⟨hrm, -, hst, -⟩ := pendingReportQuestion_spec hr
  simp only [materializePendingReportQuestion, hr, bind_ok_iff, require_ok, expect_ok,
    exists_const] at h
  obtain ⟨c, -, ⟨-, hseg⟩, order, -, s₁, h₁, h₂⟩ := h
  rw [← hseg] at hg
  obtain ⟨hq, -, hrep, -⟩ := applyQuestion_asks h₁ hg ha
  obtain ⟨hq', hrep'⟩ := ensureQuestionStop_keeps h₂
  refine ⟨hq' ▸ hq, ?_⟩
  rw [hrep', hrep]
  have hm := Table.patch_mem_update (t := s.reportEvents)
    (p := fun q => q.eventId = r.eventId && q.deliveryStatus = .pendingSession)
    (f := fun q => { q with
      body := { r.body with sessionKind := sessionKind, sessionId := sessionId }
      deliveryStatus := .pending })
    (h := fun _ => rfl) hrm
  rwa [Table.patch_pos (by simp [hst])] at hm

/-- The question is released exactly if it fits what it meets. -/
theorem materialize_iff (env : Env) (s : State) (hg : s.segments.find? g.id = some g)
    (ha : g.active = true)
    (hr : s.pendingReportQuestion g.id = some r)
    (hbody : r.body.kind = .question ∧ r.body.segmentId = g.id)
    (hasked : r.body.questionId ≠ "" ∧ 1 ≤ r.body.questionRevision)
    (hkind : sessionKind ≠ "") (hid : sessionId ≠ "") :
    (∃ s', materializePendingReportQuestion env s g.id sessionKind sessionId = .ok s') ↔
      Askable env s g r := by
  obtain ⟨hrm, -, hst, hseg⟩ := pendingReportQuestion_spec hr
  obtain ⟨c, hc, -⟩ := Option.map_eq_some_iff.mp hseg
  have horder := unused_iff_insert (t := s.deliveryOrder)
    (a := ⟨s.deliveryOrder.rows.length + 1, r.eventId, c.taskId⟩)
  have hask : ∀ {t : State}, t.segments = s.segments → t.questions = s.questions →
      ((∃ t', applyQuestion t (r.released sessionKind sessionId).body = .ok t') ↔
        s.revisionUnused r.body.taskId r.body.questionRevision ∧
          s.questions.Unused Question.questionId r.body.questionId ∧ g.outcome = .none) := by
    intro t hsegs hquestions
    have hgt : t.segments.find? (r.released sessionKind sessionId).body.segmentId = some g := by
      change t.segments.find? r.body.segmentId = some g
      rw [hsegs, hbody.2, hg]
    rw [applyQuestion_iff hgt ha]
    have hvalid : r.body.questionId ≠ "" ∧ 1 ≤ r.body.questionRevision ∧ sessionKind ≠ "" ∧
        sessionId ≠ "" := ⟨hasked.1, hasked.2, hkind, hid⟩
    simp only [State.revisionUnused, hquestions]
    exact and_iff_right hvalid
  have hstop : ∀ {t : State}, t.stops = s.stops →
      t.segments.find? r.body.segmentId = some { g with outcome := .question } →
      ((∃ t', ensureQuestionStop env t (r.released sessionKind sessionId).body = .ok t') ↔
        s.StopsForQuestion env g) := by
    intro t hstops hgt
    rw [ensureQuestionStop_iff (e := (r.released sessionKind sessionId).body) hgt]
    simp only [State.StopsForQuestion, hstops]
  simp only [materializePendingReportQuestion, hr, hc, bind_ok_iff, require_ok, expect_ok,
    exists_const, Option.some.injEq, exists_eq_left', State.appendDelivery]
  have hgr : s.segments.find? r.body.segmentId = some g := by rw [hbody.2, hg]
  constructor
  · rintro ⟨s', -, order, horder', s₁, h₁, h₂⟩
    obtain ⟨hrev, hun, hout⟩ := (hask (t := { s with
      reportEvents := _, deliveryOrder := order }) rfl rfl).mp ⟨s₁, h₁⟩
    obtain ⟨-, hstops, -, hgt⟩ := applyQuestion_asks h₁ hgr ha
    exact ⟨ha, hout, hun, hrev, horder.mp ⟨order, horder'⟩, (hstop hstops hgt).mp ⟨s', h₂⟩⟩
  · rintro ⟨-, hout, hun, hrev, hdel, hfits⟩
    obtain ⟨order, horder'⟩ := horder.mpr hdel
    obtain ⟨s₁, h₁⟩ := (hask (t := { s with
      reportEvents := s.reportEvents.update
        (fun q => q.eventId = r.eventId && q.deliveryStatus = .pendingSession)
        (fun q => { q with
          body := (r.released sessionKind sessionId).body
          deliveryStatus := .pending })
      deliveryOrder := order }) rfl rfl).mpr ⟨hrev, hun, hout⟩
    obtain ⟨-, hstops, -, hgt⟩ := applyQuestion_asks h₁ hgr ha
    obtain ⟨s', h₂⟩ := (hstop hstops hgt).mpr hfits
    exact ⟨s', hbody, order, horder', s₁, h₁, h₂⟩

end Steps

/-! ## The session event -/

/-- Every session was named by a stored event. -/
def State.SessionsLogged (s : State) : Prop :=
  ∀ q ∈ s.sessions, ∃ r ∈ s.runtimeEvents, r.eventId = q.eventId

section Sessions
variable {d : DB} {env : Env} {s s' t : State} {e : Event} {op : Op}

theorem applyEvent_sessions (h : d.applyEvent env s e = .ok s') {q : SegmentSession}
    (hq : q ∈ s'.sessions) : q ∈ s.sessions ∨ q.eventId = e.eventId := by
  unfold DB.applyEvent at h
  split at h
  case h_4 =>
    obtain rfl | ⟨row, sessions, hrow, -, h⟩ := applySession_cases h
    · exact .inl hq
    · obtain ⟨core, reports, order, questions, stops, rfl⟩ := materialize_frame h
      obtain ⟨-, rfl, -⟩ | ⟨-, rfl, hi⟩ := hrow
      · exact .inl hq
      · exact ((Table.mem_insert hi).mp hq).imp_right fun h => by rw [h]
  case h_5 =>
    obtain ⟨core, questions, rfl⟩ := applyQuestion_frame h
    exact .inl hq
  case h_10 =>
    obtain ⟨g, -, ⟨-, rfl⟩ | ⟨-, t, core, -, -, rfl⟩⟩ := applyExit_cases h
    · exact .inl hq
    · exact .inl hq
  case h_11 => cases h
  all_goals
    cases h
    exact .inl hq

/-- A session is written together with the event that names it. -/
theorem Writes.session (h : Writes d s op s') {q : SegmentSession} (hq : q ∈ s'.sessions) :
    q ∈ s.sessions ∨ ∃ r ∈ s'.runtimeEvents, r.eventId = q.eventId := by
  cases h with
  | claim h =>
    obtain ⟨c₁, c₂, caps, -, -, -, rfl, -⟩ := launch_cases h.launched
    exact .inl hq
  | report _ _ _ _ _ h₁ h₂ =>
    obtain ⟨row, events, order, usage, -, -, -, rfl⟩ := appendReport_frame h₁
    obtain ⟨core, questions, stops, rfl⟩ := askReported_frame h₂
    exact .inl hq
  | @event _ e _ _ _ _ _ _ _ _ h₁ h₂ =>
    have hrows := appendEvent_rows h₁
    obtain ⟨events, order, usage, rfl⟩ := appendEvent_frame h₁
    obtain hq | hid := applyEvent_sessions h₂ hq
    · exact .inl hq
    · have hlog : s'.runtimeEvents = events := by
        obtain ⟨core, reports, order, questions, sessions, stops, rfl⟩ := applyEvent_frame h₂
        rfl
      refine .inr ⟨d.runtimeEventRow e, ?_, hid.symm⟩
      rw [hlog, Table.mem_def, show _ = _ from hrows]
      exact List.mem_append_right _ (List.mem_singleton_self _)
  | _ => exact .inl hq

theorem State.SessionsLogged.writes (hs : s.SessionsLogged) (h : Writes d s op s') :
    s'.SessionsLogged := by
  intro q hq
  obtain hq | hlogged := h.session hq
  · obtain ⟨r, hr, hid⟩ := hs q hq
    obtain hsame | ⟨e, -, -, -, hrows⟩ := h.log
    · obtain ⟨r', hr', -, heq⟩ := mem_of_map_eq hsame.symm hr
      exact ⟨r', ‹_›, (congrArg RuntimeEvent.eventId heq :) ▸ hid⟩
    · exact ⟨r, Table.mem_def.mpr (hrows ▸ List.mem_append_left _ hr), hid⟩
  · exact hlogged

theorem sessionsLogged_of_reachable {limits : ConcurrencyLimits} (h : d.Reachable limits s) :
    s.SessionsLogged :=
  reachable_induct (P := State.SessionsLogged) (fun _ h => absurd h (Table.not_mem_empty _))
    (fun _ _ _ hs hx => hs.writes (exec_writes hx)) h

theorem appendEvent_session (hk : e.kind = .session)
    (hid : s.runtimeEvents.Unused RuntimeEvent.eventId e.eventId) : ∃ events usage,
      d.appendEvent s e = .ok { s with runtimeEvents := events, storageUsage := usage } := by
  obtain ⟨events, hi⟩ :=
    (unused_iff_insert (t := s.runtimeEvents) (a := d.runtimeEventRow e)).mpr hid
  have hinternal : ¬ deliveryStatusOf e.kind = .pending := by rw [hk]; simp [deliveryStatusOf]
  refine ⟨events, d.chargeEvent s e, ?_⟩
  simp only [DB.appendEvent, hi, expect_some, ok_bind, State.orderDelivery, if_neg hinternal]

/-- A first session is stored, and with it the question that waited is released. -/
theorem applySession_first {g : Segment} {s₀ : State} (hs : FirstSession s₀ e)
    (hl : s₀.SessionsLogged) (hsame : s.sessions = s₀.sessions)
    (hg : s.segments.find? e.segmentId = some g) (ha : g.active = true) :
    ∃ sessions, applySession env s e = materializePendingReportQuestion env
      { s with sessions := sessions } e.segmentId e.sessionKind e.sessionId := by
  have hx : g.status ≠ .exited := Segment.active_iff.mp ha
  have hfirst : s.sessions.find? e.segmentId = none := by rw [hsame, hs.first]
  have hfree : s.sessions.Unused SegmentSession.eventId e.eventId := by
    intro q hq heq
    obtain ⟨r, hr, hid⟩ := hl q (hsame ▸ hq)
    exact hs.unnamed r hr (hid.trans heq)
  obtain ⟨sessions, hi⟩ := (unused_iff_insert (t := s.sessions)
    (a := ⟨e.segmentId, e.attemptId, e.sessionKind, e.sessionId, e.eventId⟩)).mpr
      (Table.find?_eq_none.mp hfirst)
  refine ⟨sessions, ?_⟩
  simp only [applySession, require_pos (⟨hs.sessionKind.1, hs.sessionKind.2, hs.sessionId⟩ :
      _ ∧ _ ∧ _ ∧ _), ok_bind, State.segment?, hg, expect_some, if_neg hx, hfirst,
    require_pos hfree, hi]

/-- The session of an exited segment is logged and changes nothing. -/
theorem applySession_exited {g : Segment} (hs : FirstSession s e)
    (hg : t.segments.find? e.segmentId = some g) (hexited : g.status = .exited) :
    applySession env t e = .ok t := by
  have hvalid : e.sessionKind ≠ "" ∧ e.sessionKind.utf8ByteSize ≤ 64 ∧ e.sessionId ≠ "" ∧
      e.sessionId.utf8ByteSize ≤ 512 := ⟨hs.sessionKind.1, hs.sessionKind.2, hs.sessionId⟩
  simp only [applySession, require_pos hvalid, ok_bind, State.segment?, hg, expect_some,
    if_pos hexited]

/-- What a session event that comes next does is what its session does to the log with it. -/
theorem commitHostEvent_session (hadm : Admissible d env s e) (hs : FirstSession s e) :
    ∃ events usage, ∀ s', (∃ ack, d.commitHostEvent env s e = .ok (s', ack)) ↔
      applySession env { s with runtimeEvents := events, storageUsage := usage } e = .ok s' := by
  obtain ⟨events, usage, happ⟩ := appendEvent_session (d := d) hs.kind hs.unnamed
  refine ⟨events, usage, fun s' => ?_⟩
  rw [commitHostEvent_admissible hadm happ]
  simp only [DB.applyEvent, hs.kind]

/-- A question that waits for its session is not one that was released. -/
theorem held_not_released {r : ReportEvent} {sessionKind sessionId : String}
    (hr : r ∈ s.reportEvents) (hst : r.deliveryStatus = .pendingSession) :
    r.released sessionKind sessionId ∉ s.reportEvents := by
  intro hreleased
  have hkey : r.released sessionKind sessionId = r :=
    Table.eq_of_key (t := s.reportEvents) hreleased hr rfl
  have hpending : DeliveryStatus.pending = r.deliveryStatus :=
    congrArg ReportEvent.deliveryStatus hkey
  rw [hst] at hpending
  cases hpending

/-- The held back report of a segment is a question of that segment. -/
theorem held_question {limits : ConcurrencyLimits} {g : Segment} {r : ReportEvent}
    (hr : d.Reachable limits s) (hheld : s.pendingReportQuestion g.id = some r) :
    (r.body.kind = .question ∧ r.body.segmentId = g.id) ∧
      r.body.questionId ≠ "" ∧ 1 ≤ r.body.questionRevision := by
  obtain ⟨hrm, hkind, -, hrseg⟩ := pendingReportQuestion_spec hheld
  obtain ⟨hbkind, hasked⟩ := (reported_of_reachable hr).asked r hrm hkind
  obtain ⟨c, hc, hcid, hcseg, -⟩ := (bound_of_reachable hr).reports r hrm
  rw [State.reportSegment, ← hcid, Table.find?_of_mem hc] at hrseg
  exact ⟨⟨hbkind, hcseg.trans (Option.some.inj hrseg)⟩, hasked⟩

end Sessions

/-- The session a question waits for is accepted and asks the question exactly if
the segment has not exited and is undecided, the task has no question of that id
or revision, the report's delivery is new, and a stop of the segment, if there is
one, waits for the answer. -/
theorem session_materializes_iff {d : DB} {limits : ConcurrencyLimits} {s : State}
    (hr : d.Reachable limits s) {g : Segment} (hg : g ∈ s.segments) {r : ReportEvent}
    (hheld : s.pendingReportQuestion g.id = some r) {env : Env} {e : Event}
    (hseg : e.segmentId = g.id) (hadm : Admissible d env s e) (hs : FirstSession s e) :
    (∃ s' ack, d.commitHostEvent env s e = .ok (s', ack) ∧ s'.Materialized r e) ↔
      Askable env s g r := by
  obtain ⟨hrm, -, hst, -⟩ := pendingReportQuestion_spec hheld
  obtain ⟨hbody, hasked⟩ := held_question hr hheld
  have hfind : s.segments.find? e.segmentId = some g := Table.find?_eq_some.mpr ⟨hg, hseg.symm⟩
  obtain ⟨events, usage, hcommit⟩ := commitHostEvent_session hadm hs
  have hiff : (∃ s' ack, d.commitHostEvent env s e = .ok (s', ack) ∧ s'.Materialized r e) ↔
      ∃ s', applySession env { s with runtimeEvents := events, storageUsage := usage } e = .ok s' ∧
        s'.Materialized r e := by
    refine exists_congr fun s' => ?_
    rw [exists_and_right, hcommit s']
  rw [hiff]
  by_cases ha : g.active = true
  · obtain ⟨sessions, hsession⟩ := applySession_first
      (s := { s with runtimeEvents := events, storageUsage := usage }) hs
      (sessionsLogged_of_reachable hr) rfl hfind ha
    rw [hsession, hseg]
    have hmat := materialize_iff env
      { s with runtimeEvents := events, storageUsage := usage, sessions := sessions }
      (hseg ▸ hfind) ha hheld hbody hasked hs.sessionKind.1 hs.sessionId.1
    constructor
    · rintro ⟨s', hx, -⟩
      obtain ⟨h1, h2, h3, h4, h5, h6⟩ := hmat.mp ⟨s', hx⟩
      exact ⟨h1, h2, h3, h4, h5, h6⟩
    · rintro ⟨h1, h2, h3, h4, h5, h6⟩
      obtain ⟨s', hx⟩ := hmat.mpr ⟨h1, h2, h3, h4, h5, h6⟩
      exact ⟨s', hx, materialize_materialized (s := { s with
        runtimeEvents := events, storageUsage := usage, sessions := sessions })
        (hseg ▸ hfind) ha hheld hx⟩
  · refine iff_of_false ?_ fun h => ha h.active
    rintro ⟨s', hx, -, hreleased⟩
    have hexited : g.status = .exited := not_not.mp fun h => ha (Segment.active_iff.mpr h)
    rw [applySession_exited hs (by exact hfind) hexited, Except.ok.injEq] at hx
    subst hx
    exact held_not_released hrm hst hreleased

/-- The session of the worker that has asked arrives. -/
theorem session_asks_question : ∃ g ∈ (toyDB.run (State.fresh {}) askedOps).segments, ∃ r,
    (toyDB.run (State.fresh {}) askedOps).pendingReportQuestion g.id = some r ∧
    ((∃ s' ack, toyDB.commitHostEvent (toyEnv 10) (toyDB.run (State.fresh {}) askedOps)
        (toyEvent "a" 11 4 .session) = .ok (s', ack) ∧
          s'.Materialized r (toyEvent "a" 11 4 .session)) ↔
      Askable (toyEnv 10) (toyDB.run (State.fresh {}) askedOps) g r) := by
  have hfacts : (∃ g ∈ (toyDB.run (State.fresh {}) askedOps).segments.rows,
        ((toyDB.run (State.fresh {}) askedOps).pendingReportQuestion g.id).isSome = true ∧
          (toyEvent "a" 11 4 .session).segmentId = g.id) ∧
      (toyDB.commitHostEvent (toyEnv 10) (toyDB.run (State.fresh {}) askedOps)
        (toyEvent "a" 11 4 .session)).isOk = true ∧
      (toyEvent "a" 11 4 .session).sequence = (toyDB.run (State.fresh {}) askedOps).lastSequence
        (toyEvent "a" 11 4 .session).producerId + 1 ∧
      (toyDB.run (State.fresh {}) askedOps).runtimeEvents.Unused RuntimeEvent.eventId
        (toyEvent "a" 11 4 .session).eventId ∧
      (toyDB.run (State.fresh {}) askedOps).sessions.find?
        (toyEvent "a" 11 4 .session).segmentId = none := by decide +kernel
  obtain ⟨hg, hok, hnext, hunnamed, hfirst⟩ := hfacts
  have hs : FirstSession (toyDB.run (State.fresh {}) askedOps) (toyEvent "a" 11 4 .session) :=
    ⟨rfl, by decide, by decide, hunnamed, hfirst⟩
  have hr : toyDB.Reachable {} (toyDB.run (State.fresh {}) askedOps) := ⟨askedOps, rfl⟩
  obtain ⟨g, hm, hheld, hseg⟩ := hg
  obtain ⟨r, hheld⟩ := Option.isSome_iff_exists.mp hheld
  have hadm := ((commitHostEvent_next_iff hnext).mp (exists_of_isOk hok)).1
  exact ⟨g, Table.mem_def.mpr hm, r, hheld,
    session_materializes_iff hr (Table.mem_def.mpr hm) hheld hseg hadm hs⟩

/-- After a stop request, or an `unknown` event, the session the accepted question
waits for is refused. -/
theorem session_refused_after_stop :
    ((toyDB.run (State.fresh {}) askedOps).pendingReportQuestion "segment-11").isSome = true ∧
    (toyDB.commitHostEvent (toyEnv 10) (toyDB.run (State.fresh {}) askedOps)
      (toyEvent "a" 11 4 .session)).isOk = true ∧
    (toyDB.commitHostEvent (toyEnv 10) (toyDB.run (State.fresh {})
      (askedOps ++ [Op.requestStop (toyEnv 12) "a" 1 "user"]))
        (toyEvent "a" 11 4 .session)).isOk = false ∧
    (toyDB.commitHostEvent (toyEnv 10) (toyDB.run (State.fresh {})
      (askedOps ++ [toyCommit "a" 11 4 .unknown])) (toyEvent "a" 11 5 .session)).isOk = false := by
  decide +kernel

end Orchestrator.Store
