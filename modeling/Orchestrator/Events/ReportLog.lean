import Orchestrator.Invariants.Reported
import Orchestrator.Invariants.Steps
import Orchestrator.Library.Numbered

/-!
# The log of a capability

A worker may send a report again at any time: after its Host was registered for another epoch,
after the Host has told the session of a question, after the artifact has changed. The event that
the report became is compared with the one that it would become now.
-/
namespace Orchestrator.Store
open Library

/-- The event without its session. -/
def unsessioned (e : Event) : Event := { e with sessionKind := "", sessionId := "" }

/-- A report as it was committed, without its session. -/
def ReportEvent.entry (r : ReportEvent) : ReportEvent :=
  { r with body := unsessioned r.body, deliveryStatus := .pending }

/-- The session that a report of the segment is to have. -/
def State.reportSession (s : State) (kind : ReportKind) (segmentId : String) : String × String :=
  if kind = .question then
    (((s.sessions.find? segmentId).map SegmentSession.sessionKind).getD "",
      ((s.sessions.find? segmentId).map SegmentSession.sessionId).getD "")
  else ("", "")

/-- The sequences stored for a capability, oldest first. -/
def State.reportSequences (s : State) (capabilityId : String) : List Int :=
  (s.reportEvents.rows.filter (fun r => r.capabilityId = capabilityId)).map ReportEvent.sequence

/-- What `CommitReportEvent` asks of a report before it looks at the store. -/
def DB.wellFormedReport (d : DB) (spec : ReportEventSpec) : Prop :=
  spec.capabilityId ≠ "" ∧ spec.token ≠ "" ∧ reportIdPattern spec.eventId = true ∧
    1 ≤ spec.sequence ∧ spec.payload ≠ "" ∧ spec.payload.utf8ByteSize ≤ 60 * 1024 ∧
    d.jsonValid spec.payload = true

/-- The capability is registered for the epoch of its Host, which is ready. -/
def DB.admitsReport (d : DB) (s : State) (spec : ReportEventSpec) : Prop :=
  ∃ c, s.reportCapabilities.find? spec.capabilityId = some c ∧
    ∃ host, s.hosts.find? c.producerId = some host ∧ c.status = .registered ∧
      host.status = .ready ∧ host.coordinatorEpoch = c.executionEpoch ∧
      c.tokenHash = d.runtimeHash spec.token

instance (d : DB) (s : State) (spec : ReportEventSpec) : Decidable (d.admitsReport s spec) :=
  decidable_of_iff ((s.reportCapabilities.find? spec.capabilityId).any (fun c =>
    (s.hosts.find? c.producerId).any fun host => c.status = .registered ∧
      host.status = .ready ∧ host.coordinatorEpoch = c.executionEpoch ∧
      c.tokenHash = d.runtimeHash spec.token) = true)
    (by simp [DB.admitsReport, Option.any_eq_true])

/-- The same report, sent with any token and any spelling of its payload. -/
structure DB.Resends (d : DB) (spec spec' : ReportEventSpec) : Prop where
  capabilityId : spec'.capabilityId = spec.capabilityId
  sequence : spec'.sequence = spec.sequence
  eventId : spec'.eventId = spec.eventId
  kind : parseReportKind spec'.kind = parseReportKind spec.kind
  payload : d.canonicalReportPayload spec'.payload = d.canonicalReportPayload spec.payload

/-! ## What becomes of reports and sessions -/

/-- What an operation does to the reports and to the sessions that they are compared with. -/
inductive ReportStep (d : DB) (s s' : State) : Prop where
  | kept (hs : s'.sessions = s.sessions)
      (hr : s'.reportEvents.rows.map ReportEvent.unacked =
        s.reportEvents.rows.map ReportEvent.unacked)
  | reported {spec : ReportEventSpec} {c : ReportCapability} {kind : ReportKind}
      {payloadHash : String} {e : Event} (hc : c ∈ s.reportCapabilities)
      (hid : c.capabilityId = spec.capabilityId)
      (hnext : spec.sequence = s.lastReportSequence spec.capabilityId + 1)
      (he : e.sessionKind = "" ∧ e.sessionId = "")
      (hopen : kind = .question → s.openQuestions c.taskId = 0)
      (hs : s'.sessions = s.sessions)
      (hr : s'.reportEvents.rows = s.reportEvents.rows ++ [d.reportRow spec kind payloadHash
        (reportEvent c spec kind payloadHash (s.sessions.find? c.segmentId) e)])
  | session {row : SegmentSession} (hid : row.sessionId ≠ "")
      (hold : ∀ old, s.sessions.find? row.segmentId = some old → old = row)
      (hs : ∀ id, s'.sessions.find? id =
        if id = row.segmentId then some row else s.sessions.find? id)
      (hr : s'.reportEvents.rows = s.reportEvents.rows.map fun q =>
        if s.pendingReportQuestion row.segmentId = some q then
          q.released row.sessionKind row.sessionId
        else q)

section Steps
variable {d : DB} {env : Env} {s s' : State} {op : Op} {e : Event} {probe : ArtifactProbe}
  {spec : ReportEventSpec} {ack : DurableAck} {kind : ReportKind} {payload : String}

theorem decodeReportPayload_session {p : Platform}
    (h : p.decodeReportPayload kind payload = .ok e) : e.sessionKind = "" ∧ e.sessionId = "" := by
  unfold Platform.decodeReportPayload at h
  split at h
  · simp only [bind_ok_iff, expect_ok, require_ok, exists_const, Except.ok.injEq] at h
    obtain ⟨_, -, -, rfl⟩ := h
    exact ⟨rfl, rfl⟩
  · simp only [bind_ok_iff, expect_ok, require_ok, exists_const, Except.ok.injEq] at h
    obtain ⟨_, -, -, rfl⟩ := h
    exact ⟨rfl, rfl⟩

/-- A report that is accepted is stored already, or becomes the next of its capability. -/
theorem commitReportEvent_stored (h : d.commitReportEvent env probe s spec = .ok (s', ack)) :
    ∃ c kind payload, c ∈ s.reportCapabilities ∧ c.capabilityId = spec.capabilityId ∧
      parseReportKind spec.kind = some kind ∧
      d.canonicalReportPayload spec.payload = some payload ∧
      ack = reportAck spec (d.runtimeHash payload) ∧
      ∃ e, d.decodeReportPayload kind payload = .ok e ∧
        ((s' = s ∧ ∃ old ∈ s.reportEvents, old.capabilityId = spec.capabilityId ∧
            old.sequence = spec.sequence ∧ old.eventId = spec.eventId ∧ old.kind = kind ∧
            old.payloadHash = d.runtimeHash payload ∧
            canonicalReportEvent old.body = canonicalReportEvent (reportEvent c spec kind
              (d.runtimeHash payload) (s.sessions.find? c.segmentId) e)) ∨
          (spec.sequence = s.lastReportSequence spec.capabilityId + 1 ∧
            (kind = .question → s.openQuestions c.taskId = 0) ∧ s'.sessions = s.sessions ∧
            s'.reportEvents.rows = s.reportEvents.rows ++
              [d.reportRow spec kind (d.runtimeHash payload) (reportEvent c spec kind
                (d.runtimeHash payload) (s.sessions.find? c.segmentId) e)])) := by
  simp only [DB.commitReportEvent, bind_ok_iff, require_ok, expect_ok, exists_const] at h
  obtain ⟨-, kind, hkind, c, hc, host, -, -, payload, hpayload, h⟩ := h
  obtain ⟨hcm, hcid⟩ := Table.find?_eq_some.mp hc
  split at h
  · rename_i old hold
    have hsel := List.find?_some hold
    simp only [Bool.and_eq_true, decide_eq_true_eq] at hsel
    simp only [DB.repeatReport, bind_ok_iff, require_ok, exists_const, Except.ok.injEq,
      Prod.mk.injEq] at h
    obtain ⟨⟨hk, hhash⟩, e, hdec, heq, rfl, rfl⟩ := h
    exact ⟨c, kind, payload, hcm, hcid, hkind, hpayload, rfl, e, hdec, .inl ⟨rfl, old,
      List.mem_of_find?_eq_some hold, hsel.1.1, hsel.1.2, hsel.2, hk, hhash, heq⟩⟩
  · simp only [DB.commitNewReport, bind_ok_iff, require_ok, exists_const, Except.ok.injEq,
      Prod.mk.injEq] at h
    obtain ⟨hnext, e, hvalid, _, -, -, hopen, s₁, h₁, s₂, h₂, rfl, rfl⟩ := h
    obtain ⟨hrows, -⟩ := appendReport_rows h₁
    obtain ⟨row, events, order, usage, -, -, -, rfl⟩ := appendReport_frame h₁
    obtain ⟨core, questions, stops, rfl⟩ := askReported_frame h₂
    exact ⟨c, kind, payload, hcm, hcid, hkind, hpayload, rfl, e,
      validateReportPayload_decoded hvalid, .inr ⟨hnext, hopen, rfl, hrows⟩⟩

theorem commitReportEvent_step (h : d.commitReportEvent env probe s spec = .ok (s', ack)) :
    ReportStep d s s' := by
  obtain ⟨c, kind, payload, hc, hid, -, -, -, e, hdec, ⟨rfl, -⟩ | ⟨hnext, hopen, hs, hr⟩⟩ :=
    commitReportEvent_stored h
  · exact .kept rfl rfl
  · exact .reported hc hid hnext (decodeReportPayload_session hdec) hopen hs hr

theorem materialize_reports {segmentId sessionKind sessionId : String}
    (h : materializePendingReportQuestion env s segmentId sessionKind sessionId = .ok s') :
    s'.sessions = s.sessions ∧ s'.reportEvents.rows = s.reportEvents.rows.map fun q =>
      if s.pendingReportQuestion segmentId = some q then q.released sessionKind sessionId
      else q := by
  obtain ⟨hnone, rfl⟩ | ⟨r, c, order, s₁, hpend, -, -, -, h₁, h₂⟩ := materialize_cases h
  · simp [hnone]
  · obtain ⟨core, questions, rfl⟩ := applyQuestion_frame h₁
    obtain ⟨core', stops, rfl⟩ := ensureQuestionStop_frame h₂
    obtain ⟨hrm, -, hst, -⟩ := pendingReportQuestion_spec hpend
    refine ⟨rfl, List.map_congr_left fun q hq => ?_⟩
    by_cases hqr : r = q
    · subst hqr
      rw [if_pos hpend, Table.patch_pos (by simp [hst])]
      rfl
    · rw [hpend, if_neg fun h => hqr (Option.some.inj h), Table.patch_neg]
      rw [Bool.and_eq_false_iff, decide_eq_false_iff_not]
      exact .inl fun hid => hqr (Table.eq_of_key hrm hq hid.symm)

/-- The session a segment reports first stays its session, and a question that waits gets it. -/
theorem applySession_step (h : applySession env s e = .ok s') :
    s' = s ∨ ∃ row : SegmentSession, row.sessionId ≠ "" ∧
      (∀ old, s.sessions.find? row.segmentId = some old → old = row) ∧
      (∀ id, s'.sessions.find? id =
        if id = row.segmentId then some row else s.sessions.find? id) ∧
      s'.reportEvents.rows = s.reportEvents.rows.map fun q =>
        if s.pendingReportQuestion row.segmentId = some q then
          q.released row.sessionKind row.sessionId
        else q := by
  obtain rfl | ⟨row, sessions, ⟨hrow, rfl, hkind, hid⟩ | ⟨hnone, rfl, hi⟩, hne, hm⟩ :=
    applySession_cases h
  · exact .inl rfl
  · obtain ⟨hs, hr⟩ := materialize_reports hm
    have hseg : row.segmentId = e.segmentId := (Table.find?_eq_some.mp hrow).2
    rw [← hseg] at hrow hr
    rw [← hkind, ← hid] at hr
    refine .inr ⟨row, hid ▸ hne, fun old ho => ?_, fun id => ?_, hr⟩
    · rw [hrow, Option.some.injEq] at ho
      exact ho.symm
    · rw [hs]
      split
      · rename_i heq
        rw [heq, hrow]
      · rfl
  · obtain ⟨hs, hr⟩ := materialize_reports hm
    refine .inr ⟨⟨e.segmentId, e.attemptId, e.sessionKind, e.sessionId, e.eventId⟩, hne,
      fun old ho => ?_, fun id => ?_, hr⟩
    · change s.sessions.find? e.segmentId = some old at ho
      rw [hnone] at ho
      cases ho
    · rw [hs]
      change sessions.find? id = if id = e.segmentId then some _ else s.sessions.find? id
      split
      · rename_i heq
        rw [heq]
        exact Table.find?_eq_some.mpr ⟨(Table.mem_insert hi).mpr (.inr rfl), rfl⟩
      · rename_i hneq
        exact Table.find?_insert_of_ne hi fun heq => hneq heq.symm

/-- Reports and sessions change with a session event only. -/
theorem applyEvent_step (h : d.applyEvent env s e = .ok s') :
    (s'.sessions = s.sessions ∧ s'.reportEvents = s.reportEvents) ∨
      ∃ row : SegmentSession, row.sessionId ≠ "" ∧
        (∀ old, s.sessions.find? row.segmentId = some old → old = row) ∧
        (∀ id, s'.sessions.find? id =
          if id = row.segmentId then some row else s.sessions.find? id) ∧
        s'.reportEvents.rows = s.reportEvents.rows.map fun q =>
          if s.pendingReportQuestion row.segmentId = some q then
            q.released row.sessionKind row.sessionId
          else q := by
  unfold DB.applyEvent at h
  split at h
  case h_4 =>
    obtain rfl | hrow := applySession_step h
    · exact .inl ⟨rfl, rfl⟩
    · exact .inr hrow
  case h_5 =>
    obtain ⟨core, questions, rfl⟩ := applyQuestion_frame h
    exact .inl ⟨rfl, rfl⟩
  case h_10 =>
    obtain ⟨g, -, ⟨-, rfl⟩ | ⟨-, t, core, -, -, rfl⟩⟩ := applyExit_cases h
    · exact .inl ⟨rfl, rfl⟩
    · exact .inl ⟨rfl, rfl⟩
  case h_11 => cases h
  all_goals
    cases h
    exact .inl ⟨rfl, rfl⟩

theorem reportStep_of_exec (h : d.exec s op = .ok s') : ReportStep d s s' := by
  cases exec_writes h with
  | claim hc =>
    obtain ⟨c₁, c₂, caps, -, -, -, rfl, -⟩ := launch_cases hc.launched
    exact .kept rfl rfl
  | ack _ hr => exact .kept rfl hr
  | report =>
    obtain ⟨ack, hx⟩ := committed_ok.mp h
    exact commitReportEvent_step hx
  | event _ _ _ _ _ h₁ h₂ =>
    obtain ⟨events, order, usage, rfl⟩ := appendEvent_frame h₁
    obtain ⟨hs, hr⟩ | ⟨row, hid, hold, hs, hr⟩ := applyEvent_step h₂
    · exact .kept hs (by rw [hr])
    · exact .session hid hold hs hr
  | _ => exact .kept rfl rfl

end Steps

/-! ## Reports have the session of their segment -/

/-- A question that is held back is the only one of its segment, and every report that is not has
the session of its segment. -/
structure Synced (s : State) : Prop where
  session : ∀ r ∈ s.reportEvents, ∃ segmentId, s.reportSegment r = some segmentId ∧
    (r.body.sessionKind, r.body.sessionId) = s.reportSession r.kind segmentId
  waits : ∀ r ∈ s.reportEvents, r.kind = .question → r.body.sessionId = "" →
    r.deliveryStatus = .pendingSession
  single : ∀ r ∈ s.reportEvents, ∀ q ∈ s.reportEvents, r.deliveryStatus = .pendingSession →
    q.deliveryStatus = .pendingSession → s.reportSegment r = s.reportSegment q → r = q

theorem Synced.fresh (limits : ConcurrencyLimits) : Synced (State.fresh limits) :=
  ⟨fun _ h => absurd h (Table.not_mem_empty _), fun _ h => absurd h (Table.not_mem_empty _),
    fun _ h => absurd h (Table.not_mem_empty _)⟩

section Synced
variable {d : DB} {s s' : State} {op : Op} {r : ReportEvent} {c : ReportCapability}
  {segmentId : String}

/-- Who may ask has no question held back. -/
theorem pending_free (hb : Bound s) (hrep : Reported s) (hc : c ∈ s.reportCapabilities)
    (hopen : s.openQuestions c.taskId = 0) (hr : r ∈ s.reportEvents)
    (hst : r.deliveryStatus = .pendingSession) : s.reportSegment r ≠ some c.segmentId := by
  intro hseg
  obtain ⟨c', hfind, hcseg⟩ := Option.map_eq_some_iff.mp hseg
  obtain ⟨hc', -⟩ := Table.find?_eq_some.mp hfind
  obtain ⟨g, hg, hgid, hgt, -⟩ := hb.capabilities c hc
  obtain ⟨g', hg', hgid', hgt', -⟩ := hb.capabilities c' hc'
  obtain rfl : g' = g := Table.eq_of_key hg' hg (by rw [hgid', hcseg, hgid])
  have hcount : s.reportEvents.count (fun r => r.kind = .question &&
      r.deliveryStatus = .pendingSession && (s.reportCapabilities.find? r.capabilityId).any
        (fun c' => c'.taskId = c.taskId)) = 0 := by
    unfold State.openQuestions at hopen
    omega
  have hno := Table.count_eq_zero.mp hcount r hr
  simp [hrep.held r hr hst, hst, hfind, ← hgt, ← hgt'] at hno

theorem pendingReportQuestion_of (hrep : Reported s) (hs : Synced s) (hr : r ∈ s.reportEvents)
    (hst : r.deliveryStatus = .pendingSession) (hseg : s.reportSegment r = some segmentId) :
    s.pendingReportQuestion segmentId = some r := by
  cases hp : s.pendingReportQuestion segmentId with
  | some q =>
    obtain ⟨hq, -, hqst, hqseg⟩ := pendingReportQuestion_spec hp
    rw [hs.single q hq r hr hqst hst (hqseg.trans hseg.symm)]
  | none =>
    unfold State.pendingReportQuestion at hp
    rw [List.argmin_eq_none] at hp
    obtain ⟨c, hc, hcs⟩ := Option.map_eq_some_iff.mp hseg
    have hmem := List.eq_nil_iff_forall_not_mem.mp hp r
    simp [hr, hrep.held r hr hst, hst, hc, hcs, ← Table.mem_def] at hmem

theorem reportSession_eq (hs : s'.sessions.find? segmentId = s.sessions.find? segmentId)
    (kind : ReportKind) : s'.reportSession kind segmentId = s.reportSession kind segmentId := by
  unfold State.reportSession
  rw [hs]

/-- Rows that stand for the same report are one row. -/
theorem eq_of_eventId {r' q' : ReportEvent} (hr : r' ∈ s'.reportEvents) (hq : q' ∈ s'.reportEvents)
    (h : r'.eventId = q'.eventId) : r' = q' := Table.eq_of_key hr hq h

theorem Synced.kept (h : Synced s) (hw : Writes d s op s') (hs : s'.sessions = s.sessions)
    (hr : s'.reportEvents.rows.map ReportEvent.unacked =
      s.reportEvents.rows.map ReportEvent.unacked) : Synced s' := by
  -- a row is one of before, but for the acknowledgement of its delivery
  have horigin : ∀ r' ∈ s'.reportEvents, ∃ r ∈ s.reportEvents, r'.unacked = r.unacked ∧
      r'.eventId = r.eventId ∧ r'.kind = r.kind ∧ r'.body = r.body ∧
      ∃ segmentId, s.reportSegment r = some segmentId ∧ s'.reportSegment r' = some segmentId ∧
        (r.body.sessionKind, r.body.sessionId) = s.reportSession r.kind segmentId := by
    intro r' hm
    obtain ⟨r, hr₀, -, heq⟩ := mem_of_map_eq hr hm
    obtain ⟨segmentId, hseg, hsess⟩ := h.session r hr₀
    have hcap : r'.capabilityId = r.capabilityId := (congrArg ReportEvent.capabilityId heq :)
    exact ⟨r, hr₀, heq, (congrArg ReportEvent.eventId heq :), (congrArg ReportEvent.kind heq :),
      (congrArg ReportEvent.body heq :), segmentId, hseg, hw.reportSegment hcap hseg, hsess⟩
  constructor
  · intro r' hm
    obtain ⟨r, -, -, -, hkind, hbody, segmentId, -, hseg, hsess⟩ := horigin r' hm
    refine ⟨segmentId, hseg, ?_⟩
    rw [hbody, hkind, hsess, reportSession_eq (by rw [hs])]
  · intro r' hm hk hid
    obtain ⟨r, hr₀, heq, -, hkind, hbody, -⟩ := horigin r' hm
    rw [hkind] at hk
    rw [hbody] at hid
    exact (unacked_pendingSession heq).mpr (h.waits r hr₀ hk hid)
  · intro r' hm q' hq hst hqst hseg
    obtain ⟨r, hr₀, heq, hid, -, -, seg, hseg₀, hseg', -⟩ := horigin r' hm
    obtain ⟨q, hq₀, hqeq, hqid, -, -, qseg, hqseg₀, hqseg', -⟩ := horigin q' hq
    rw [hseg', hqseg'] at hseg
    obtain rfl : r = q := h.single r hr₀ q hq₀ ((unacked_pendingSession heq).mp hst)
      ((unacked_pendingSession hqeq).mp hqst) (by rw [hseg₀, hqseg₀, hseg])
    exact eq_of_eventId hm hq (hid.trans hqid.symm)

theorem Synced.reported (h : Synced s) (hb : Bound s) (hrep : Reported s) (hw : Writes d s op s')
    {spec : ReportEventSpec} {kind : ReportKind} {payloadHash : String} {e : Event}
    (hc : c ∈ s.reportCapabilities) (hid : c.capabilityId = spec.capabilityId)
    (he : e.sessionKind = "" ∧ e.sessionId = "")
    (hopen : kind = .question → s.openQuestions c.taskId = 0) (hs : s'.sessions = s.sessions)
    (hr : s'.reportEvents.rows = s.reportEvents.rows ++ [d.reportRow spec kind payloadHash
      (reportEvent c spec kind payloadHash (s.sessions.find? c.segmentId) e)]) : Synced s' := by
  generalize hnew : d.reportRow spec kind payloadHash
    (reportEvent c spec kind payloadHash (s.sessions.find? c.segmentId) e) = row at hr
  have hmem : ∀ r', r' ∈ s'.reportEvents ↔ r' ∈ s.reportEvents ∨ r' = row := by
    intro r'
    rw [Table.mem_def, hr, List.mem_append, List.mem_singleton, ← Table.mem_def]
  have hseg : ∀ r ∈ s.reportEvents, ∃ id, s.reportSegment r = some id ∧
      s'.reportSegment r = some id := fun r hr₀ => by
    obtain ⟨id, hseg, -⟩ := h.session r hr₀
    exact ⟨id, hseg, hw.reportSegment rfl hseg⟩
  have hrow : s'.reportSegment row = some c.segmentId := by
    refine hw.reportSegment (r := row) rfl ?_
    have hfind : s.reportCapabilities.find? row.capabilityId = some c :=
      Table.find?_eq_some.mpr ⟨hc, by rw [hid, ← hnew]; rfl⟩
    rw [State.reportSegment, hfind, Option.map_some]
  have hheld : row.deliveryStatus = .pendingSession → ∀ r ∈ s.reportEvents,
      r.deliveryStatus = .pendingSession → s'.reportSegment r ≠ s'.reportSegment row := by
    intro hst r hr₀ hrst heq
    have hk : kind = .question := by
      rw [← hnew] at hst
      exact (reportDelivery_pendingSession hst).1
    obtain ⟨id, hid₀, hid'⟩ := hseg r hr₀
    rw [hid', hrow] at heq
    exact pending_free hb hrep hc (hopen hk) hr₀ hrst (hid₀.trans heq)
  constructor
  · intro r' hm
    rcases (hmem r').mp hm with hm | rfl
    · obtain ⟨id, hseg, hsess⟩ := h.session r' hm
      exact ⟨id, hw.reportSegment rfl hseg, hsess.trans (reportSession_eq (by rw [hs]) _).symm⟩
    · refine ⟨c.segmentId, hrow, ?_⟩
      have hsame : s'.reportSession r'.kind c.segmentId = s.reportSession r'.kind c.segmentId :=
        reportSession_eq (by rw [hs]) _
      rw [hsame, ← hnew]
      simp only [DB.reportRow, reportEvent, State.reportSession, he.1, he.2]
      split <;> rfl
  · intro r' hm hk hid
    rcases (hmem r').mp hm with hm | rfl
    · exact h.waits r' hm hk hid
    · rw [← hnew] at hk hid ⊢
      obtain rfl : kind = .question := hk
      exact if_pos ⟨rfl, hid⟩
  · intro r' hm q' hq hst hqst heq
    rcases (hmem r').mp hm with hm | rfl
    · rcases (hmem q').mp hq with hq | rfl
      · obtain ⟨id, hid₀, hid'⟩ := hseg r' hm
        obtain ⟨qid, hqid₀, hqid'⟩ := hseg q' hq
        rw [hid', hqid'] at heq
        exact h.single r' hm q' hq hst hqst (by rw [hid₀, hqid₀, heq])
      · exact absurd heq (hheld hqst r' hm hst)
    · rcases (hmem q').mp hq with hq | rfl
      · exact absurd heq.symm (hheld hst q' hq hqst)
      · rfl

/-- A report is one of before, or the question that waited and has the session now. -/
theorem Synced.origin (h : Synced s) (hrep : Reported s) (hw : Writes d s op s')
    {row : SegmentSession}
    (hr : s'.reportEvents.rows = s.reportEvents.rows.map fun q =>
      if s.pendingReportQuestion row.segmentId = some q then
        q.released row.sessionKind row.sessionId
      else q) {r' : ReportEvent} (hm : r' ∈ s'.reportEvents) :
    ∃ r ∈ s.reportEvents, ∃ id,
      s.reportSegment r = some id ∧ s'.reportSegment r' = some id ∧
      (r' = r ∨ r.kind = .question ∧ id = row.segmentId ∧
        r' = r.released row.sessionKind row.sessionId) ∧
      (r' = r → id = row.segmentId → r.deliveryStatus ≠ .pendingSession) := by
  rw [Table.mem_def, hr] at hm
  obtain ⟨r, hr₀, rfl⟩ := List.mem_map.mp hm
  obtain ⟨id, hseg, -⟩ := h.session r hr₀
  split
  · rename_i hp
    obtain ⟨-, hk, hst, hps⟩ := pendingReportQuestion_spec hp
    obtain rfl : id = row.segmentId := Option.some.inj (hseg.symm.trans hps)
    refine ⟨r, hr₀, _, hseg, hw.reportSegment rfl hseg, .inr ⟨hk, rfl, rfl⟩, fun heq _ => ?_⟩
    have hpend : .pending = r.deliveryStatus := congrArg ReportEvent.deliveryStatus heq
    rw [← hpend]
    decide
  · rename_i hp
    refine ⟨r, hr₀, id, hseg, hw.reportSegment rfl hseg, .inl rfl, fun _ heq hst => hp ?_⟩
    exact pendingReportQuestion_of hrep h hr₀ hst (heq ▸ hseg)

/-- A question that does not wait has a session already, which is the one that arrives. -/
theorem Synced.sameSession (h : Synced s) {row : SegmentSession}
    (hold : ∀ old, s.sessions.find? row.segmentId = some old → old = row)
    (hs : s'.sessions.find? row.segmentId = some row) (hr : r ∈ s.reportEvents)
    (hsess : (r.body.sessionKind, r.body.sessionId) = s.reportSession r.kind row.segmentId)
    (hwait : r.deliveryStatus ≠ .pendingSession) :
    s.reportSession r.kind row.segmentId = s'.reportSession r.kind row.segmentId := by
  by_cases hk : r.kind = .question
  · cases hfind : s.sessions.find? row.segmentId with
    | none =>
      have hnone : r.body.sessionId = "" := by
        have hsnd := congrArg Prod.snd hsess
        simpa [State.reportSession, hk, hfind] using hsnd
      exact absurd (h.waits r hr hk hnone) hwait
    | some old =>
      obtain rfl := hold old hfind
      exact (reportSession_eq (hs.trans hfind.symm) _).symm
  · simp [State.reportSession, hk]

/-- The session that arrives is given to the question that waits for it. -/
theorem Synced.released (h : Synced s) (hrep : Reported s) (hw : Writes d s op s')
    {row : SegmentSession} (hid : row.sessionId ≠ "")
    (hold : ∀ old, s.sessions.find? row.segmentId = some old → old = row)
    (hs : ∀ id, s'.sessions.find? id =
      if id = row.segmentId then some row else s.sessions.find? id)
    (hr : s'.reportEvents.rows = s.reportEvents.rows.map fun q =>
      if s.pendingReportQuestion row.segmentId = some q then
        q.released row.sessionKind row.sessionId
      else q) : Synced s' := by
  constructor
  · intro r' hm
    obtain ⟨r, hr₀, id, hseg, hseg', hcase, hwait⟩ := h.origin hrep hw hr hm
    refine ⟨id, hseg', ?_⟩
    rcases hcase with rfl | ⟨hk, rfl, rfl⟩
    · obtain ⟨id', hid', hsess⟩ := h.session r' hr₀
      obtain rfl : id' = id := Option.some.inj (hid'.symm.trans hseg)
      by_cases hne : id' = row.segmentId
      · subst hne
        exact hsess.trans (h.sameSession hold (by rw [hs, if_pos rfl]) hr₀ hsess (hwait rfl rfl))
      · exact hsess.trans (reportSession_eq (by rw [hs, if_neg hne]) _).symm
    · simp [ReportEvent.released, State.reportSession, hk, hs]
  · intro r' hm hk hsid
    obtain ⟨r, hr₀, id, -, -, rfl | ⟨-, -, rfl⟩, -⟩ := h.origin hrep hw hr hm
    · exact h.waits r' hr₀ hk hsid
    · exact absurd hsid hid
  · intro r' hm q' hq hst hqst heq
    obtain ⟨r, hr₀, id, hseg, hseg', rfl | ⟨-, -, rfl⟩, -⟩ := h.origin hrep hw hr hm
    · obtain ⟨q, hq₀, qid, hqseg, hqseg', rfl | ⟨-, -, rfl⟩, -⟩ := h.origin hrep hw hr hq
      · rw [hseg', hqseg'] at heq
        exact h.single r' hr₀ q' hq₀ hst hqst (by rw [hseg, hqseg, heq])
      · cases hqst
    · cases hst

theorem Synced.exec (h : Synced s) (hb : Bound s) (hrep : Reported s) (hx : d.exec s op = .ok s') :
    Synced s' := by
  have hw := exec_writes hx
  cases reportStep_of_exec hx with
  | kept hs hr => exact h.kept hw hs hr
  | reported hc hid _ he hopen hs hr => exact h.reported hb hrep hw hc hid he hopen hs hr
  | session hid hold hs hr => exact h.released hrep hw hid hold hs hr

end Synced

/-! ## Numbering -/

/-- The reports are numbered, and have their sessions. -/
structure ReportLogged (s : State) : Prop where
  bound : Bound s
  reported : Reported s
  synced : Synced s
  numbered : ∀ id, ∃ n, s.reportSequences id = upTo n

theorem ReportLogged.fresh (limits : ConcurrencyLimits) : ReportLogged (State.fresh limits) :=
  ⟨bound_fresh limits, .fresh limits, .fresh limits, fun _ => ⟨0, rfl⟩⟩

section Log
variable {d : DB} {limits : ConcurrencyLimits} {env : Env} {s s' : State} {op : Op}
  {r : ReportEvent} {spec spec' : ReportEventSpec} {kind : ReportKind} {payload id : String}
  {e : Event} {probe : ArtifactProbe} {ack : DurableAck}

/-- Nothing but a report adds to the log. -/
theorem ReportStep.log (h : ReportStep d s s') :
    s'.reportEvents.rows.map ReportEvent.entry = s.reportEvents.rows.map ReportEvent.entry ∨
      ∃ r : ReportEvent, r.sequence = s.lastReportSequence r.capabilityId + 1 ∧
        s'.reportEvents.rows = s.reportEvents.rows ++ [r] := by
  cases h with
  | kept _ hr =>
    have hentry := congrArg (List.map ReportEvent.entry) hr
    simp only [List.map_map] at hentry
    exact .inl hentry
  | reported _ _ hnext _ _ _ hr => exact .inr ⟨_, hnext, hr⟩
  | session _ _ _ hr =>
    refine .inl ?_
    rw [hr, List.map_map]
    refine List.map_congr_left fun q _ => ?_
    rw [Function.comp_apply]
    split <;> rfl

theorem reportSequences_eq (s : State) (id : String) :
    s.reportSequences id = ((s.reportEvents.rows.map ReportEvent.entry).filter
      (fun r => r.capabilityId = id)).map ReportEvent.sequence := by
  rw [List.filter_map, List.map_map]
  rfl

theorem lastReportSequence_of_upTo {n : Nat} (h : s.reportSequences id = upTo n) :
    s.lastReportSequence id = n := by
  have hlast : s.lastReportSequence id = (s.reportSequences id).foldr max 0 := rfl
  rw [hlast, h, foldr_max_upTo]

theorem reportSequences_concat (hrows : s'.reportEvents.rows = s.reportEvents.rows ++ [r]) :
    s'.reportSequences id = s.reportSequences id ++
      if r.capabilityId = id then [r.sequence] else [] := by
  unfold State.reportSequences
  rw [hrows, List.filter_append, List.map_append]
  by_cases hid : r.capabilityId = id
  · simp [hid]
  · simp [hid]

theorem ReportLogged.exec (h : ReportLogged s) (hx : d.exec s op = .ok s') : ReportLogged s' := by
  refine ⟨(exec_effect h.bound hx).bound, h.reported.writes (exec_writes hx),
    h.synced.exec h.bound h.reported hx, fun id => ?_⟩
  obtain ⟨n, hn⟩ := h.numbered id
  obtain hsame | ⟨r, hnext, hrows⟩ := (reportStep_of_exec hx).log
  · refine ⟨n, ?_⟩
    rw [reportSequences_eq, hsame, ← reportSequences_eq, hn]
  · rw [reportSequences_concat hrows, hn]
    by_cases hid : r.capabilityId = id
    · subst hid
      refine ⟨n + 1, ?_⟩
      rw [lastReportSequence_of_upTo hn] at hnext
      rw [if_pos rfl, hnext, upTo_succ]
    · exact ⟨n, by rw [if_neg hid, List.append_nil]⟩

theorem reportLogged_of_reachable (h : d.Reachable limits s) : ReportLogged s :=
  reachable_induct (.fresh limits) (fun _ _ _ hl hx => hl.exec hx) h

theorem ReportLogged.last (h : ReportLogged s) (id : String) :
    s.lastReportSequence id = (s.reportSequences id).length := by
  obtain ⟨n, hn⟩ := h.numbered id
  rw [lastReportSequence_of_upTo hn, hn, length_upTo]

/-- One report has one capability and sequence. -/
theorem ReportLogged.unique (h : ReportLogged s) {q : ReportEvent} (hr : r ∈ s.reportEvents)
    (hq : q ∈ s.reportEvents) (hc : q.capabilityId = r.capabilityId)
    (hs : q.sequence = r.sequence) : q = r := by
  obtain ⟨n, hn⟩ := h.numbered r.capabilityId
  have hnodup : (s.reportSequences r.capabilityId).Nodup := hn ▸ nodup_upTo n
  refine List.inj_on_of_nodup_map hnodup ?_ ?_ hs
  · exact List.mem_filter.mpr ⟨hq, by simpa using hc⟩
  · exact List.mem_filter.mpr ⟨hr, by simp⟩

theorem ReportLogged.sequence_le (h : ReportLogged s) (hr : r ∈ s.reportEvents) :
    r.sequence ≤ s.lastReportSequence r.capabilityId := by
  obtain ⟨n, hn⟩ := h.numbered r.capabilityId
  have hmem : r.sequence ∈ s.reportSequences r.capabilityId :=
    List.mem_map_of_mem (List.mem_filter.mpr ⟨hr, by simp⟩)
  rw [hn] at hmem
  rw [lastReportSequence_of_upTo hn]
  exact (mem_upTo.mp hmem).2

/-! ## Sending again -/

/-- The report with this payload is stored, whatever session it has by now. -/
def DB.Stored (d : DB) (s : State) (spec : ReportEventSpec) (kind : ReportKind) (payload : String)
    (e : Event) : Prop :=
  ∃ c ∈ s.reportCapabilities, c.capabilityId = spec.capabilityId ∧
    ∃ r ∈ s.reportEvents, r.capabilityId = spec.capabilityId ∧ r.sequence = spec.sequence ∧
      r.eventId = spec.eventId ∧ r.kind = kind ∧ r.payloadHash = d.runtimeHash payload ∧
      unsessioned (canonicalReportEvent r.body) = unsessioned (canonicalReportEvent
        (reportEvent c spec kind (d.runtimeHash payload) none e))

theorem unsessioned_reportEvent {c c' : ReportCapability} (hst : c'.static = c.static)
    (spec : ReportEventSpec) (kind : ReportKind) (payloadHash : String)
    (session session' : Option SegmentSession) (e : Event) :
    unsessioned (canonicalReportEvent (reportEvent c' spec kind payloadHash session e)) =
      unsessioned (canonicalReportEvent (reportEvent c spec kind payloadHash session' e)) := by
  have hstatic : ∀ {α : Type} (f : ReportCapability → α), (∀ c, f c.static = f c) → f c' = f c :=
    fun f hf => (hf c').symm.trans ((congrArg f hst).trans (hf c))
  simp only [unsessioned, canonicalReportEvent, reportEvent,
    hstatic ReportCapability.capabilityId fun _ => rfl, hstatic ReportCapability.runId fun _ => rfl,
    hstatic ReportCapability.taskId fun _ => rfl, hstatic ReportCapability.attemptId fun _ => rfl,
    hstatic ReportCapability.segmentId fun _ => rfl,
    hstatic ReportCapability.workRevision fun _ => rfl]

/-- A report that is stored stays so. -/
theorem entry_exec (hx : d.exec s op = .ok s') (hr : r ∈ s.reportEvents) :
    ∃ r' ∈ s'.reportEvents, r'.entry = r.entry := by
  obtain hsame | ⟨q, -, hrows⟩ := (reportStep_of_exec hx).log
  · obtain ⟨r', hr', -, hentry⟩ := mem_of_map_eq hsame.symm hr
    exact ⟨r', hr', hentry.symm⟩
  · exact ⟨r, Table.mem_def.mpr (hrows ▸ List.mem_append_left _ hr), rfl⟩

theorem entry_run (hr : r ∈ s.reportEvents) (ops : List Op) :
    ∃ r' ∈ (d.run s ops).reportEvents, r'.entry = r.entry := by
  refine run_invariant (I := fun s' : State => ∃ r' ∈ s'.reportEvents, r'.entry = r.entry)
    ⟨r, hr, rfl⟩ fun t op ht => ?_
  refine step_induct (P := fun s' : State => ∃ r' ∈ s'.reportEvents, r'.entry = r.entry) ht
    fun t' hx => ?_
  obtain ⟨q, hq, hentry⟩ := ht
  obtain ⟨q', hq', hentry'⟩ := entry_exec hx hq
  exact ⟨q', hq', hentry'.trans hentry⟩

theorem DB.Stored.run (h : d.Stored s spec kind payload e) (ops : List Op) :
    d.Stored (d.run s ops) spec kind payload e := by
  refine run_invariant (I := fun s => d.Stored s spec kind payload e) h fun s op hs => ?_
  refine step_induct (P := fun s => d.Stored s spec kind payload e) hs fun s' hx => ?_
  obtain ⟨c, hc, hid, r, hr, hrc, hrs, hre, hrk, hrh, heq⟩ := hs
  obtain ⟨c', hc', hst⟩ := mem_of_map_prefix (exec_writes hx).capabilities hc
  obtain ⟨r', hr', hentry⟩ := entry_exec hx hr
  have hbody : unsessioned r'.body = unsessioned r.body := (congrArg ReportEvent.body hentry :)
  have hcanon : unsessioned (canonicalReportEvent r'.body) =
      unsessioned (canonicalReportEvent r.body) := congrArg canonicalReportEvent hbody
  exact ⟨c', hc', (ReportCapability.static_binding hst).1.trans hid, r', hr',
    (congrArg ReportEvent.capabilityId hentry :).trans hrc,
    (congrArg ReportEvent.sequence hentry :).trans hrs,
    (congrArg ReportEvent.eventId hentry :).trans hre,
    (congrArg ReportEvent.kind hentry :).trans hrk,
    (congrArg ReportEvent.payloadHash hentry :).trans hrh,
    hcanon.trans (heq.trans (unsessioned_reportEvent hst ..).symm)⟩

theorem commitReportEvent_keeps (h : d.commitReportEvent env probe s spec = .ok (s', ack)) :
    ∃ kind payload e, parseReportKind spec.kind = some kind ∧
      d.canonicalReportPayload spec.payload = some payload ∧
      d.decodeReportPayload kind payload = .ok e ∧
      ack = reportAck spec (d.runtimeHash payload) ∧ d.Stored s' spec kind payload e := by
  have hx : d.exec s (.commitReportEvent env probe spec) = .ok s' := committed_ok.mpr ⟨ack, h⟩
  obtain ⟨c, kind, payload, hc, hid, hkind, hpayload, hack, e, hdec, hcase⟩ :=
    commitReportEvent_stored h
  refine ⟨kind, payload, e, hkind, hpayload, hdec, hack, ?_⟩
  rcases hcase with ⟨rfl, old, hold, hoc, hos, hoe, hok, hoh, heq⟩ | ⟨-, -, -, hrows⟩
  · exact ⟨c, hc, hid, old, hold, hoc, hos, hoe, hok, hoh,
      (congrArg unsessioned heq).trans (unsessioned_reportEvent rfl ..)⟩
  · obtain ⟨c', hc', hst⟩ := mem_of_map_prefix (exec_writes hx).capabilities hc
    exact ⟨c', hc', (ReportCapability.static_binding hst).1.trans hid, _,
      Table.mem_def.mpr (hrows ▸ List.mem_append_right _ (List.mem_singleton_self _)), rfl, rfl,
      rfl, rfl, rfl, (unsessioned_reportEvent hst ..).symm⟩

theorem eq_of_unsessioned {a b : Event} (h : unsessioned a = unsessioned b)
    (hs : (a.sessionKind, a.sessionId) = (b.sessionKind, b.sessionId)) : a = b := by
  cases a
  cases b
  simp_all [unsessioned]

/-- A stored report that comes again is compared with what it would become now. -/
theorem DB.Stored.body (h : d.Stored s spec kind payload e) (hs : Synced s)
    (hres : d.Resends spec spec') (hdec : d.decodeReportPayload kind payload = .ok e) :
    ∃ c, s.reportCapabilities.find? spec'.capabilityId = some c ∧
      ∃ r, s.reportEvents.rows.find? (fun r => r.capabilityId = spec'.capabilityId &&
          r.sequence = spec'.sequence && r.eventId = spec'.eventId) = some r ∧
        (r.kind = kind ∧ r.payloadHash = d.runtimeHash payload) ∧
        canonicalReportEvent r.body = canonicalReportEvent (reportEvent c spec' kind
          (d.runtimeHash payload) (s.sessions.find? c.segmentId) e) := by
  obtain ⟨c, hc, hid, r, hr, hrc, hrs, hre, hrk, hrh, heq⟩ := h
  have hfind : s.reportCapabilities.find? r.capabilityId = some c :=
    Table.find?_eq_some.mpr ⟨hc, hid.trans hrc.symm⟩
  refine ⟨c, by rw [hres.capabilityId, ← hrc, hfind], r, ?_, ⟨hrk, hrh⟩, ?_⟩
  · rw [hres.capabilityId, hres.sequence, hres.eventId]
    cases hf : s.reportEvents.rows.find? (fun r => r.capabilityId = spec.capabilityId &&
        r.sequence = spec.sequence && r.eventId = spec.eventId) with
    | none =>
      have hno := List.find?_eq_none.mp hf r hr
      simp [hrc, hrs, hre] at hno
    | some q =>
      have hsel := List.find?_some hf
      simp only [Bool.and_eq_true, decide_eq_true_eq] at hsel
      rw [Table.eq_of_key (List.mem_of_find?_eq_some hf) hr (hsel.2.trans hre.symm)]
  · obtain ⟨hk, hi⟩ := decodeReportPayload_session hdec
    obtain ⟨segmentId, hseg, hsess⟩ := hs.session r hr
    rw [State.reportSegment, hfind, Option.map_some, Option.some.injEq] at hseg
    refine eq_of_unsessioned (heq.trans ?_) ?_
    · simp only [unsessioned, canonicalReportEvent, reportEvent, hres.sequence, hres.eventId]
    · simp only [canonicalReportEvent, reportEvent]
      rw [hsess, ← hseg, hrk, State.reportSession, hk, hi]
      split <;> rfl

/-- It gets the answer that it had, from a capability that is registered. -/
theorem DB.Stored.resent (h : d.Stored s spec kind payload e) (hs : Synced s)
    (hres : d.Resends spec spec') (hwf : d.wellFormedReport spec')
    (hkind : parseReportKind spec.kind = some kind)
    (hpayload : d.canonicalReportPayload spec.payload = some payload)
    (hdec : d.decodeReportPayload kind payload = .ok e) (env : Env) (probe : ArtifactProbe) :
    d.commitReportEvent env probe s spec' =
      if d.admitsReport s spec' then .ok (s, reportAck spec (d.runtimeHash payload))
      else .error .reportCapabilityRejected := by
  obtain ⟨c, hfind, r, hr, hsame, hbody⟩ := h.body hs hres hdec
  have hack : reportAck spec' (d.runtimeHash payload) = reportAck spec (d.runtimeHash payload) := by
    simp only [reportAck, hres.capabilityId, hres.sequence, hres.eventId]
  unfold DB.wellFormedReport at hwf
  simp only [DB.commitReportEvent, require_pos hwf, ok_bind, hres.kind, hkind, expect_some, hfind]
  by_cases ha : d.admitsReport s spec'
  · obtain ⟨c', hc', host, hhost, hadm⟩ := ha
    obtain rfl : c = c' := Option.some.inj (hfind.symm.trans hc')
    rw [if_pos ⟨c, hfind, host, hhost, hadm⟩]
    simp only [hhost, expect_some, ok_bind, require_pos hadm, hres.payload, hpayload, hr,
      DB.repeatReport, require_pos hsame, hdec, require_pos hbody, hack]
  · rw [if_neg ha]
    cases hhost : s.hosts.find? c.producerId with
    | none => rfl
    | some host =>
      have hno : ¬ (c.status = .registered ∧ host.status = .ready ∧
          host.coordinatorEpoch = c.executionEpoch ∧ c.tokenHash = d.runtimeHash spec'.token) :=
        fun hadm => ha ⟨c, hfind, host, hhost, hadm⟩
      simp only [expect_some, ok_bind, require_neg hno, error_bind]

/-- Only what is stored already, or comes next, is accepted. -/
theorem ReportLogged.accepted (h : ReportLogged s)
    (hx : d.commitReportEvent env probe s spec = .ok (s', ack)) :
    (s' = s ∧ ∃ r ∈ s.reportEvents, r.capabilityId = spec.capabilityId ∧
      r.sequence = spec.sequence ∧ r.eventId = spec.eventId ∧
      parseReportKind spec.kind = some r.kind ∧
      (d.canonicalReportPayload spec.payload).map d.runtimeHash = some r.payloadHash) ∨
    spec.sequence = (s.reportSequences spec.capabilityId).length + 1 := by
  obtain ⟨c, kind, payload, -, -, hkind, hpayload, -, e, -,
    ⟨rfl, r, hr, hrc, hrs, hre, rfl, hrh, -⟩ | ⟨hnext, -⟩⟩ := commitReportEvent_stored hx
  · exact .inl ⟨rfl, r, hr, hrc, hrs, hre, hkind, by rw [hpayload, Option.map_some, hrh]⟩
  · exact .inr (by rw [hnext, h.last])

/-- An event id stands for a report of one capability. -/
theorem accepted_own (hx : d.commitReportEvent env probe s spec = .ok (s', ack))
    (hr : r ∈ s.reportEvents) (hid : r.eventId = spec.eventId) :
    r.capabilityId = spec.capabilityId := by
  obtain ⟨c, kind, payload, -, -, -, -, -, e, -,
    ⟨rfl, q, hq, hqc, -, hqe, -⟩ | ⟨-, -, -, hrows⟩⟩ := commitReportEvent_stored hx
  · rw [Table.eq_of_key hr hq (hid.trans hqe.symm), hqc]
  · have hmem : ∀ q, q ∈ s'.reportEvents ↔ q ∈ s.reportEvents ∨ q = d.reportRow spec kind
        (d.runtimeHash payload) (reportEvent c spec kind (d.runtimeHash payload)
          (s.sessions.find? c.segmentId) e) := by
      intro q
      rw [Table.mem_def, hrows, List.mem_append, List.mem_singleton, ← Table.mem_def]
    rw [Table.eq_of_key ((hmem _).mpr (.inl hr)) ((hmem _).mpr (.inr rfl)) hid]
    rfl

theorem report_refused (h : ∀ s' ack, d.commitReportEvent env probe s spec ≠ .ok (s', ack)) :
    (∃ error, d.commitReportEvent env probe s spec = .error error) ∧
      d.step s (.commitReportEvent env probe spec) = s := by
  cases hx : d.commitReportEvent env probe s spec with
  | ok p => exact absurd hx (h p.1 p.2)
  | error err =>
    refine ⟨⟨err, rfl⟩, step_of_error (e := err) ?_⟩
    simp only [DB.exec, hx]
    rfl

end Log

/-- What the log of a state owes the workers. -/
structure ReportSafe (d : DB) (s : State) : Prop where
  /-- The stored sequences of a capability are 1, …, n. -/
  gapFree : ∀ id, ∃ n, s.reportSequences id = upTo n
  /-- A report that was accepted once is answered in the same way ever after, and changes nothing,
  whatever has become of its artifact, its question and its Host; only its capability is to be
  registered for the epoch of a Host that is ready. -/
  resent : ∀ env probe spec s' ack, d.commitReportEvent env probe s spec = .ok (s', ack) →
    ∀ later env' probe' spec', d.Resends spec spec' → d.wellFormedReport spec' →
      d.commitReportEvent env' probe' (d.run s' later) spec' =
        if d.admitsReport (d.run s' later) spec' then .ok (d.run s' later, ack)
        else .error .reportCapabilityRejected
  /-- Another id, kind or payload under a stored sequence is refused. -/
  changed : ∀ env probe spec, ∀ r ∈ s.reportEvents, r.capabilityId = spec.capabilityId →
    r.sequence = spec.sequence → ¬ (r.eventId = spec.eventId ∧
      parseReportKind spec.kind = some r.kind ∧
      (d.canonicalReportPayload spec.payload).map d.runtimeHash = some r.payloadHash) →
    (∃ error, d.commitReportEvent env probe s spec = .error error) ∧
      d.step s (.commitReportEvent env probe spec) = s
  /-- A report that is not the next one is refused. -/
  gap : ∀ env probe (spec : ReportEventSpec), spec.sequence ∉ s.reportSequences spec.capabilityId →
    spec.sequence ≠ (s.reportSequences spec.capabilityId).length + 1 →
    (∃ error, d.commitReportEvent env probe s spec = .error error) ∧
      d.step s (.commitReportEvent env probe spec) = s
  /-- An id that one capability has used is refused from every other, ever after. -/
  taken : ∀ r ∈ s.reportEvents, ∀ later env probe (spec : ReportEventSpec),
    r.eventId = spec.eventId → r.capabilityId ≠ spec.capabilityId →
      (∃ error, d.commitReportEvent env probe (d.run s later) spec = .error error) ∧
        d.step (d.run s later) (.commitReportEvent env probe spec) = d.run s later

/-- Whatever workers, Hosts and owners do, in every order and under every epoch, the log of each
capability is gap-free and safe against replays. -/
theorem report_log_safe (d : DB) (limits : ConcurrencyLimits) (ops : List Op) :
    ReportSafe d (d.run (State.fresh limits) ops) := by
  have hr : d.Reachable limits (d.run (State.fresh limits) ops) := ⟨ops, rfl⟩
  generalize d.run (State.fresh limits) ops = s at hr ⊢
  have h := reportLogged_of_reachable hr
  constructor
  · exact h.numbered
  · intro env probe spec s' ack hx later env' probe' spec' hres hwf
    obtain ⟨kind, payload, e, hkind, hpayload, hdec, rfl, hstored⟩ := commitReportEvent_keeps hx
    have hexec : d.exec s (.commitReportEvent env probe spec) = .ok s' := committed_ok.mpr ⟨_, hx⟩
    have hs' : ReportLogged s' := h.exec hexec
    have hlater : ReportLogged (d.run s' later) :=
      run_invariant hs' fun s op hs => step_induct hs fun _ hx => hs.exec hx
    exact (hstored.run later).resent hlater.synced hres hwf hkind hpayload hdec env' probe'
  · intro env probe spec r hr hrc hrs hne
    refine report_refused fun s' ack hx => ?_
    obtain ⟨-, q, hq, hqc, hqs, hqe, hqk, hqh⟩ | hnext := h.accepted hx
    · obtain rfl := h.unique hr hq (hqc.trans hrc.symm) (hqs.trans hrs.symm)
      exact hne ⟨hqe, hqk, hqh⟩
    · have hle := h.sequence_le hr
      rw [hrc, h.last] at hle
      omega
  · intro env probe spec hno hnext
    refine report_refused fun s' ack hx => ?_
    obtain ⟨-, q, hq, hqc, hqs, -⟩ | hseq := h.accepted hx
    · exact hno (hqs ▸ List.mem_map_of_mem (List.mem_filter.mpr ⟨hq, by simpa using hqc⟩))
    · exact hnext hseq
  · intro r hr later env probe spec hid hne
    refine report_refused fun s' ack hx => hne ?_
    obtain ⟨r', hr', hentry⟩ := entry_run (d := d) hr later
    have hid' : r'.eventId = r.eventId := (congrArg ReportEvent.eventId hentry :)
    have hcap : r'.capabilityId = r.capabilityId := (congrArg ReportEvent.capabilityId hentry :)
    rw [← hcap, accepted_own hx hr' (hid'.trans hid)]

end Orchestrator.Store
