import Orchestrator.Invariants.Writes

/-!
# Reports

A report enters as a row of its own. A session event gives a question that was
held back its session; nothing else but an acknowledgement rewrites a row.
-/
namespace Orchestrator.Store
open Library

/-- The row of a report. -/
def DB.reportRow (d : DB) (spec : ReportEventSpec) (kind : ReportKind) (payloadHash : String)
    (e : Event) : ReportEvent where
  eventId := spec.eventId
  capabilityId := spec.capabilityId
  sequence := spec.sequence
  kind := kind
  payloadHash := payloadHash
  body := e
  eventRevision := spec.sequence
  actionSlot := d.actionSlot spec.capabilityId spec.eventId
  deliveryStatus := reportDelivery kind e
  accountedBytes := d.accountedBytes kind e

/-- The report once its question has a session. -/
def ReportEvent.released (r : ReportEvent) (sessionKind sessionId : String) : ReportEvent :=
  { r with
    body := { r.body with sessionKind := sessionKind, sessionId := sessionId }
    deliveryStatus := .pending }

/-- The segment of a report, by its capability. -/
def State.reportSegment (s : State) (r : ReportEvent) : Option String :=
  (s.reportCapabilities.find? r.capabilityId).map ReportCapability.segmentId

section Rows
variable {d : DB} {env : Env} {s s' : State} {op : Op} {e : Event} {c : ReportCapability}
  {spec : ReportEventSpec} {kind : ReportKind} {payloadHash : String}

theorem appendReport_rows (h : d.appendReport s c spec kind payloadHash e = .ok s') :
    s'.reportEvents.rows = s.reportEvents.rows ++ [d.reportRow spec kind payloadHash e] ∧
      ∀ r ∈ s.reportEvents.rows,
        ¬ (r.capabilityId = spec.capabilityId ∧ r.sequence = spec.sequence) := by
  simp only [DB.appendReport, bind_ok_iff, require_ok, expect_ok, exists_const,
    Except.ok.injEq] at h
  obtain ⟨hnew, events, hi, order, -, rfl⟩ := h
  exact ⟨Table.rows_insert hi, hnew⟩

theorem pendingReportQuestion_spec {segmentId : String} {r : ReportEvent}
    (h : s.pendingReportQuestion segmentId = some r) :
    r ∈ s.reportEvents ∧ r.kind = .question ∧ r.deliveryStatus = .pendingSession ∧
      s.reportSegment r = some segmentId := by
  have hm := List.mem_filter.mp (List.argmin_mem h)
  simp only [Bool.and_eq_true, decide_eq_true_eq, Option.any_eq_true] at hm
  obtain ⟨hr, ⟨hkind, hst⟩, c, hc, hseg⟩ := hm
  exact ⟨hr, hkind, hst, by rw [State.reportSegment, hc, Option.map_some, hseg]⟩

/-- What an event does to the reports: a session event may release the one that waits for it. -/
theorem applyEvent_reports (h : d.applyEvent env s e = .ok s') :
    s'.reportEvents = s.reportEvents ∨ ∃ r, e.kind = .session ∧
      s.pendingReportQuestion e.segmentId = some r ∧
      s'.reportEvents.rows = s.reportEvents.rows.map
        (fun q => if q = r then r.released e.sessionKind e.sessionId else q) := by
  have hreleased : ∀ (s₁ : State) {t : State}, s₁.reportEvents = s.reportEvents →
      s₁.reportCapabilities = s.reportCapabilities →
      materializePendingReportQuestion env s₁ e.segmentId e.sessionKind e.sessionId = .ok t →
      t.reportEvents = s.reportEvents ∨ ∃ r, s.pendingReportQuestion e.segmentId = some r ∧
        t.reportEvents.rows = s.reportEvents.rows.map
          (fun q => if q = r then r.released e.sessionKind e.sessionId else q) := by
    intro s₁ t hr hc hm
    have hpending : s₁.pendingReportQuestion e.segmentId = s.pendingReportQuestion e.segmentId := by
      unfold State.pendingReportQuestion
      rw [hr, hc]
    obtain ⟨-, rfl⟩ | ⟨r, c, order, s₂, hpend, -, -, -, h₁, h₂⟩ :=
      materialize_cases hm
    · exact .inl hr
    · rw [hpending] at hpend
      obtain ⟨core, questions, rfl⟩ := applyQuestion_frame h₁
      obtain ⟨core', stops, rfl⟩ := ensureQuestionStop_frame h₂
      refine .inr ⟨r, hpend, ?_⟩
      obtain ⟨hrm, -, hst, -⟩ := pendingReportQuestion_spec hpend
      simp only [Table.rows_update, hr]
      refine List.map_congr_left fun q hq => ?_
      -- the event id is the key, so the update selects the row of `r` alone
      by_cases hqr : q = r
      · rw [if_pos hqr, Table.patch_pos (by simp [hqr, hst])]
        subst hqr
        rfl
      · rw [if_neg hqr, Table.patch_neg]
        rw [Bool.and_eq_false_iff, decide_eq_false_iff_not]
        exact .inl fun hid => hqr (Table.eq_of_key hq hrm hid)
  unfold DB.applyEvent at h
  split at h
  case h_4 hk =>
    obtain rfl | ⟨row, sessions, -, -, h⟩ := applySession_cases h
    · exact .inl rfl
    · exact (hreleased { s with sessions := sessions } rfl rfl h).imp_right
        (Exists.imp fun _ hx => ⟨hk, hx⟩)
  case h_5 =>
    obtain ⟨core, questions, rfl⟩ := applyQuestion_frame h
    exact .inl rfl
  case h_10 =>
    obtain ⟨g, -, ⟨-, rfl⟩ | ⟨-, t, core, -, -, rfl⟩⟩ := applyExit_cases h
    · exact .inl rfl
    · exact .inl rfl
  case h_11 => cases h
  all_goals
    cases h
    exact .inl rfl

theorem prefix_of_map_eq {α β : Type*} {π : α → β} {l l' : List α} (h : l'.map π = l.map π) :
    l.map π <+: l'.map π := h ▸ List.prefix_rfl

/-- Capabilities keep their binding, and are only added to. -/
theorem Writes.capabilities (h : Writes d s op s') :
    s.reportCapabilities.rows.map ReportCapability.static <+:
      s'.reportCapabilities.rows.map ReportCapability.static := by
  cases h with
  | claim h =>
    obtain ⟨c₁, c₂, caps, -, -, hc, rfl, -⟩ := launch_cases h.launched
    simp only [Table.rows_insert hc, List.map_append, List.prefix_append]
  | @register _ _ _ hf hst =>
    exact prefix_of_map_eq (map_static_update (h := hf) ReportCapability.static hst)
  | report _ _ _ _ _ h₁ h₂ =>
    obtain ⟨row, events, order, usage, -, -, -, rfl⟩ := appendReport_frame h₁
    obtain ⟨core, questions, stops, rfl⟩ := askReported_frame h₂
    refine prefix_of_map_eq (map_static_update (h := ?_) ReportCapability.static fun _ => rfl)
    exact fun _ => rfl
  | event _ _ _ _ _ h₁ h₂ =>
    obtain ⟨core, reports, order, questions, sessions, stops, rfl⟩ := applyEvent_frame h₂
    obtain ⟨events, order, usage, rfl⟩ := appendEvent_frame h₁
    exact List.prefix_rfl
  | _ => exact List.prefix_rfl

/-- A report's segment stays the same. -/
theorem Writes.reportSegment (h : Writes d s op s') {r r' : ReportEvent} {id : String}
    (hc : r'.capabilityId = r.capabilityId) (hr : s.reportSegment r = some id) :
    s'.reportSegment r' = some id := by
  obtain ⟨c, hfind, hseg⟩ := Option.map_eq_some_iff.mp hr
  obtain ⟨hcm, hcid⟩ := Table.find?_eq_some.mp hfind
  obtain ⟨c', hc', hst⟩ := mem_of_map_prefix h.capabilities hcm
  obtain ⟨h0, h1, -, -⟩ := ReportCapability.static_binding hst
  have hfind' : s'.reportCapabilities.find? r'.capabilityId = some c' :=
    Table.find?_eq_some.mpr ⟨hc', by rw [h0, hcid, hc]⟩
  rw [State.reportSegment, hfind', Option.map_some, h1, hseg]

/-- A stored report was stored before, or is the one the operation commits. -/
theorem Writes.reports (h : Writes d s op s') {r' : ReportEvent} (hr : r' ∈ s'.reportEvents) :
    (∃ r ∈ s.reportEvents, r'.unacked = r.unacked ∨
        ∃ sessionKind sessionId, r' = r.released sessionKind sessionId) ∨
      ∃ env probe spec c kind payload payloadHash e, op = .commitReportEvent env probe spec ∧
        c ∈ s.reportCapabilities ∧ c.capabilityId = spec.capabilityId ∧
        parseReportKind spec.kind = some kind ∧ d.decodeReportPayload kind payload = .ok e ∧
        (∀ r ∈ s.reportEvents.rows,
          ¬ (r.capabilityId = spec.capabilityId ∧ r.sequence = spec.sequence)) ∧
        r' = d.reportRow spec kind payloadHash
          (reportEvent c spec kind payloadHash (s.sessions.find? c.segmentId) e) := by
  cases h with
  | claim h =>
    obtain ⟨c₁, c₂, caps, -, -, hc, rfl, -⟩ := launch_cases h.launched
    exact .inl ⟨r', hr, .inl rfl⟩
  | ack he hrep =>
    obtain ⟨r, hr₀, -, heq⟩ := mem_of_map_eq hrep hr
    exact .inl ⟨r, hr₀, .inl heq⟩
  | report hc hid hkind hdec _ h₁ h₂ =>
    obtain ⟨hrows, hnew⟩ := appendReport_rows h₁
    obtain ⟨core, questions, stops, rfl⟩ := askReported_frame h₂
    rw [Table.mem_def, show _ = _ from hrows, List.mem_append, List.mem_singleton] at hr
    rcases hr with hr | rfl
    · exact .inl ⟨r', hr, .inl rfl⟩
    · exact .inr ⟨_, _, _, _, _, _, _, _, rfl, hc, hid, hkind, hdec, hnew, rfl⟩
  | event _ _ _ _ _ h₁ h₂ =>
    obtain ⟨events, order, usage, rfl⟩ := appendEvent_frame h₁
    obtain hsame | ⟨r, -, -, hrows⟩ := applyEvent_reports h₂
    · exact .inl ⟨r', hsame ▸ hr, .inl rfl⟩
    · rw [Table.mem_def, hrows] at hr
      obtain ⟨q, hq, rfl⟩ := List.mem_map.mp hr
      refine .inl ⟨q, hq, ?_⟩
      split
      · rename_i hqr
        exact .inr ⟨_, _, by rw [hqr]⟩
      · exact .inl rfl
  | _ => exact .inl ⟨r', hr, .inl rfl⟩

theorem unacked_pendingSession {r r' : ReportEvent} (h : r'.unacked = r.unacked) :
    r'.deliveryStatus = .pendingSession ↔ r.deliveryStatus = .pendingSession := by
  have hst : (if r'.deliveryStatus = .acked then .pending else r'.deliveryStatus) =
      (if r.deliveryStatus = .acked then .pending else r.deliveryStatus) :=
    (congrArg ReportEvent.deliveryStatus h :)
  cases hr : r.deliveryStatus <;> cases hr' : r'.deliveryStatus <;> simp_all

/-- What holds of every report question: its event asks it. -/
structure Reported (s : State) : Prop where
  asked : ∀ r ∈ s.reportEvents, r.kind = .question →
    r.body.kind = .question ∧ r.body.questionId ≠ "" ∧ 1 ≤ r.body.questionRevision
  held : ∀ r ∈ s.reportEvents, r.deliveryStatus = .pendingSession → r.kind = .question

theorem Reported.fresh (limits : ConcurrencyLimits) : Reported (State.fresh limits) :=
  ⟨fun _ h => absurd h (Table.not_mem_empty _), fun _ h => absurd h (Table.not_mem_empty _)⟩

theorem decodeReportPayload_question {p : Platform} {payload : String}
    (h : p.decodeReportPayload .question payload = .ok e) :
    e.questionId ≠ "" ∧ 1 ≤ e.questionRevision := by
  simp only [Platform.decodeReportPayload, reduceCtorEq, if_false, bind_ok_iff, require_ok,
    expect_ok, exists_const, Except.ok.injEq] at h
  obtain ⟨value, -, ⟨⟨-, hid, hrev, -⟩, -⟩, rfl⟩ := h
  exact ⟨hid, hrev⟩

theorem reportDelivery_pendingSession (h : reportDelivery kind e = .pendingSession) :
    kind = .question ∧ e.sessionId = "" := by
  unfold reportDelivery at h
  split at h
  · cases h
  · split at h
    · assumption
    · cases h

theorem Reported.writes (hr : Reported s) (h : Writes d s op s') : Reported s' := by
  constructor
  · intro r' hm hk
    obtain ⟨r, hr₀, heq | ⟨_, _, rfl⟩⟩ |
      ⟨_, _, spec, c, kind, payload, hash, e, -, -, -, -, hdec, -, rfl⟩ :=
      h.reports hm
    · have hkind : r'.kind = r.kind := (congrArg ReportEvent.kind heq :)
      have hbody : r'.body = r.body := (congrArg ReportEvent.body heq :)
      rw [hbody]
      exact hr.asked r hr₀ (hkind ▸ hk)
    · exact hr.asked r hr₀ hk
    · obtain rfl : kind = .question := hk
      have hasked := decodeReportPayload_question hdec
      exact ⟨rfl, hasked⟩
  · intro r' hm hst
    obtain ⟨r, hr₀, heq | ⟨_, _, rfl⟩⟩ |
      ⟨_, _, spec, c, kind, payload, hash, e, -, -, -, -, -, -, rfl⟩ :=
      h.reports hm
    · have hkind : r'.kind = r.kind := (congrArg ReportEvent.kind heq :)
      rw [hkind]
      exact hr.held r hr₀ ((unacked_pendingSession heq).mp hst)
    · cases hst
    · exact (reportDelivery_pendingSession hst).1

theorem reported_of_reachable {limits : ConcurrencyLimits} (h : d.Reachable limits s) :
    Reported s :=
  reachable_induct (Reported.fresh limits) (fun _ _ _ hr hx => hr.writes (exec_writes hx)) h

end Rows
end Orchestrator.Store
