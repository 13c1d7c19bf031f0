import Orchestrator.Invariants.Admitted

/-!
# Every operation is a step

`Bound` ties capabilities and reports to segments and tasks to their launch. It
holds in every reachable state, and in a state where it holds every accepted
operation is a `Step` of the scheduling rows.
-/
namespace Orchestrator.Store
open Library

def ReportCapability.static (c : ReportCapability) : ReportCapability :=
  { c with tokenHash := "", capabilityDir := "", executionEpoch := 0, status := .pending,
           usedBytes := 0 }

structure Bound (s : State) : Prop where
  launches : ∀ t ∈ s.tasks, ∃ l ∈ s.hostLaunches, l.id = t.hostLaunchId
  capabilities : ∀ c ∈ s.reportCapabilities, ∃ g ∈ s.segments,
    g.id = c.segmentId ∧ g.taskId = c.taskId ∧ g.attemptId = c.attemptId
  reports : ∀ r ∈ s.reportEvents, ∃ c ∈ s.reportCapabilities, c.capabilityId = r.capabilityId ∧
    r.body.segmentId = c.segmentId ∧ r.body.taskId = c.taskId ∧ r.body.attemptId = c.attemptId

def ReportEvent.binding (r : ReportEvent) : String × String × String × String :=
  (r.capabilityId, r.body.segmentId, r.body.taskId, r.body.attemptId)

/-- No binding changes and none is added. -/
structure Settled (s s' : State) : Prop where
  launches : s.hostLaunches.rows.map HostLaunch.id <+: s'.hostLaunches.rows.map HostLaunch.id
  capabilities : s'.reportCapabilities.rows.map ReportCapability.static =
    s.reportCapabilities.rows.map ReportCapability.static
  reports : s'.reportEvents.rows.map ReportEvent.binding =
    s.reportEvents.rows.map ReportEvent.binding

theorem Settled.refl (s : State) : Settled s s := ⟨List.prefix_rfl, rfl, rfl⟩

theorem Settled.trans {s s' s'' : State} (h : Settled s s') (h' : Settled s' s'') :
    Settled s s'' :=
  ⟨h.launches.trans h'.launches, h'.capabilities.trans h.capabilities,
    h'.reports.trans h.reports⟩

theorem bound_fresh (limits : ConcurrencyLimits) : Bound (State.fresh limits) :=
  ⟨fun _ h => absurd h (Table.not_mem_empty _), fun _ h => absurd h (Table.not_mem_empty _),
    fun _ h => absurd h (Table.not_mem_empty _)⟩

theorem ReportCapability.static_binding {c c' : ReportCapability} (h : c'.static = c.static) :
    c'.capabilityId = c.capabilityId ∧ c'.segmentId = c.segmentId ∧ c'.taskId = c.taskId ∧
      c'.attemptId = c.attemptId :=
  ⟨(congrArg ReportCapability.capabilityId h :), (congrArg ReportCapability.segmentId h :),
    (congrArg ReportCapability.taskId h :), (congrArg ReportCapability.attemptId h :)⟩

section Keep
variable {s s' : State}

theorem Bound.capability_of (hb : Bound s) (hk : Grows s.toCore s'.toCore)
    (hc : ∀ c' ∈ s'.reportCapabilities, ∃ c ∈ s.reportCapabilities, c'.static = c.static)
    {c' : ReportCapability} (hm : c' ∈ s'.reportCapabilities) : ∃ g ∈ s'.segments,
      g.id = c'.segmentId ∧ g.taskId = c'.taskId ∧ g.attemptId = c'.attemptId := by
  obtain ⟨c, hcm, hst⟩ := hc c' hm
  obtain ⟨-, h1, h2, h3⟩ := ReportCapability.static_binding hst
  obtain ⟨g, hg, hi, ht, ha⟩ := hb.capabilities c hcm
  obtain ⟨g', hg', hs⟩ := hk.segment hg
  refine ⟨g', hg', ?_, ?_, ?_⟩
  · rw [Segment.static_id hs, hi, h1]
  · rw [Segment.static_taskId hs, ht, h2]
  · rw [Segment.static_attemptId hs, ha, h3]

theorem Bound.launch_of (hb : Bound s) (hk : Kept s.toCore s'.toCore)
    (hl : s.hostLaunches.rows.map HostLaunch.id <+: s'.hostLaunches.rows.map HostLaunch.id) :
    ∀ t' ∈ s'.tasks, ∃ l' ∈ s'.hostLaunches, l'.id = t'.hostLaunchId := by
  intro t' ht'
  obtain ⟨t, ht, hst⟩ := hk.task_of ht'
  obtain ⟨l, hlm, hid⟩ := hb.launches t ht
  obtain ⟨l', hl', hid'⟩ := mem_of_map_prefix hl hlm
  exact ⟨l', hl', by rw [hid', hid, Task.static_hostLaunchId hst]⟩

theorem mem_of_map_eq {α β : Type*} {π : α → β} {l l' : List α} (h : l'.map π = l.map π)
    {a : α} (ha : a ∈ l') : ∃ b ∈ l, a ∈ l' ∧ π a = π b := by
  obtain ⟨b, hb, hπ⟩ := mem_of_map_prefix (h ▸ List.prefix_rfl : l'.map π <+: l.map π) ha
  exact ⟨b, hb, ha, hπ.symm⟩

/-- Where capabilities keep their binding, so do the reports of the same rows. -/
theorem Bound.keep (hb : Bound s) (hk : Kept s.toCore s'.toCore) (hs : Settled s s') :
    Bound s' := by
  refine ⟨hb.launch_of hk hs.launches, fun c' hm => ?_, fun r hr => ?_⟩
  · refine hb.capability_of hk.toGrows (fun c h => ?_) hm
    obtain ⟨c₀, hc₀, -, hst⟩ := mem_of_map_eq hs.capabilities h
    exact ⟨c₀, hc₀, hst⟩
  · obtain ⟨r₀, hr₀, -, hbind⟩ := mem_of_map_eq hs.reports hr
    simp only [ReportEvent.binding, Prod.mk.injEq] at hbind
    obtain ⟨hcap, hseg, htask, hatt⟩ := hbind
    obtain ⟨c, hc, hid, h1, h2, h3⟩ := hb.reports r₀ hr₀
    obtain ⟨c', hc', -, hst⟩ := mem_of_map_eq hs.capabilities.symm hc
    obtain ⟨h0, h4, h5, h6⟩ := ReportCapability.static_binding hst
    exact ⟨c', hc', by rw [← h0, hid, hcap], by rw [hseg, h1, h4], by rw [htask, h2, h5],
      by rw [hatt, h3, h6]⟩

/-- A stored report names the segment it is about. -/
theorem Bound.report_names (hb : Bound s) {r : ReportEvent} (hr : r ∈ s.reportEvents)
    {g : Segment} (hg : g ∈ s.segments) (hid : g.id = r.body.segmentId) : Names r.body g := by
  obtain ⟨c, hc, -, h1, h2, h3⟩ := hb.reports r hr
  obtain ⟨k, hk, hkid, hkt, hka⟩ := hb.capabilities c hc
  obtain rfl : g = k := Table.eq_of_key hg hk (by rw [hid, h1, hkid])
  exact ⟨hid.symm, by rw [h2, hkt], by rw [h3, hka]⟩

end Keep

/-! ## Host events -/

theorem Segment.active_iff {g : Segment} : g.active = true ↔ g.status ≠ .exited :=
  SegmentStatus.active_iff

/-- A rewrite of one segment between two active statuses is quiet. -/
theorem quiet_updateSegment {c : Core} {id : String} {p : Segment → Bool} {f : Segment → Segment}
    {h : ∀ g, (f g).id = g.id} (hs : ∀ g, (f g).static = g.static)
    (hr : ∀ g, (f g).reservation = g.reservation)
    (ha : ∀ g ∈ c.segments, g.id = id → p g = true → g.status ≠ .exited ∧ (f g).status ≠ .exited) :
    Quiet c (c.updateSegment id p f h) := by
  refine Quiet.updateSegments fun g hg hp => ⟨hs g, hr g, ?_⟩
  rw [Bool.and_eq_true, decide_eq_true_eq] at hp
  obtain ⟨h1, h2⟩ := ha g hg hp.1 hp.2
  rw [Segment.active_iff.mpr h1, Segment.active_iff.mpr h2]

section Events
variable {d : DB} {op : Op} {env : Env} {s s' : State} {e : Event}

theorem applyPhase_quiet {c : Core} (id : String) {next : SegmentStatus}
    (allowed : List SegmentStatus) (hn : next ≠ .exited) :
    Quiet c (c.applyPhase id next allowed) := by
  refine quiet_updateSegment (fun _ => rfl) (fun _ => rfl) fun g _ _ hp => ⟨?_, hn⟩
  simp only [Bool.and_eq_true, decide_eq_true_eq] at hp
  exact hp.2

theorem setOutcome_quiet {c : Core} (id : String) (outcome : Outcome) :
    Quiet c (c.setOutcome id outcome) := by
  refine quiet_updateSegment (fun _ => rfl) (fun _ => rfl) fun g _ _ hp => ?_
  simp only [Bool.and_eq_true, decide_eq_true_eq] at hp
  exact ⟨hp.1, hp.1⟩

/-- Applying a question changes nothing, or asks it and sets the outcome. -/
theorem applyQuestion_cases (h : applyQuestion s e = .ok s') :
    s' = s ∨ ∃ g questions, s.segments.find? e.segmentId = some g ∧ g.active = true ∧
      1 ≤ e.questionRevision ∧ s.questions.insert? (openQuestion e) = some questions ∧
      s' = { s with
        toCore := s.toCore.updateSegment e.segmentId
          (fun g => g.status ≠ .exited && g.outcome = .none)
          (fun g => { g with outcome := .question })
        questions := questions } := by
  simp only [applyQuestion, bind_ok_iff, require_ok, expect_ok, exists_const] at h
  obtain ⟨⟨-, hrev, -⟩, g, hg, h⟩ := h
  split at h
  · cases h; exact .inl rfl
  · rename_i hact
    simp only [bind_ok_iff, require_ok, expect_ok, exists_const, Except.ok.injEq] at h
    obtain ⟨-, questions, hq, -, rfl⟩ := h
    exact .inr ⟨g, questions, hg, Segment.active_iff.mpr hact, hrev, hq, rfl⟩

theorem applyQuestion_quiet (h : applyQuestion s e = .ok s') :
    Quiet s.toCore s'.toCore ∧ Settled s s' := by
  obtain rfl | ⟨-, questions, -, -, -, -, rfl⟩ := applyQuestion_cases h
  · exact ⟨.refl _, .refl _⟩
  · refine ⟨quiet_updateSegment (fun _ => rfl) (fun _ => rfl) fun g _ _ hp => ?_,
      List.prefix_rfl, rfl, rfl⟩
    simp only [Bool.and_eq_true, decide_eq_true_eq] at hp
    exact ⟨hp.1, hp.1⟩

/-- `ensureQuestionStop` finds its stop row, or inserts one and stops the segment. -/
theorem ensureQuestionStop_cases (h : ensureQuestionStop env s e = .ok s') :
    s' = s ∨ ∃ g stops, s.segments.find? e.segmentId = some g ∧ g.status.launched = true ∧
      s.insertStop env g waitingQuestion = some stops ∧
      s' = { s with
        toCore := (s.toCore.updateSegment e.segmentId (fun g => g.status.launched)
          (fun g => { g with status := .stopping })).setTaskStatus e.taskId .stopping
        stops := stops } := by
  unfold ensureQuestionStop at h
  split at h
  · simp only [bind_ok_iff, require_ok, exists_const, Except.ok.injEq] at h
    exact .inl h.2.symm
  · simp only [bind_ok_iff, require_ok, expect_ok, exists_const, Except.ok.injEq] at h
    obtain ⟨g, hg, hl, stops, hstops, rfl⟩ := h
    exact .inr ⟨g, stops, hg, hl, hstops, rfl⟩

theorem SegmentStatus.launched_ne_exited {st : SegmentStatus} (h : st.launched = true) :
    st ≠ .exited := by
  rintro rfl; cases h

/-- A question applied and its stop ensured, for an event that names its segment. -/
theorem askAndStop_move {s₀ s₁ : State} (hq : Quiet s₀.toCore s.toCore) (hs : Settled s₀ s)
    (hn : ∀ g ∈ s₀.segments, g.id = e.segmentId → Names e g)
    (h₁ : applyQuestion s e = .ok s₁) (h₂ : ensureQuestionStop env s₁ e = .ok s') :
    Move d op none s₀.toCore s'.toCore ∧ Settled s₀ s' := by
  obtain ⟨hq₁, hs₁⟩ := applyQuestion_quiet h₁
  have hq₂ := hq.trans hq₁
  have hs₂ : Settled s₀ s₁ := hs.trans hs₁
  obtain rfl | ⟨g, stops, hg, hl, -, rfl⟩ := ensureQuestionStop_cases h₂
  · exact ⟨.quiet hq₂, hs₂⟩
  · obtain ⟨hm, hid⟩ := Table.find?_eq_some.mp hg
    obtain ⟨g₀, hg₀, hst, -, hact⟩ := hq₂.of_mem hm
    obtain ⟨-, htask, -⟩ := hn g₀ hg₀ ((Segment.static_id hst).symm.trans hid)
    have hact₀ : g₀.active = true := by
      rw [← hact, Segment.active_iff]
      exact SegmentStatus.launched_ne_exited hl
    refine ⟨?_, hs₂.launches, hs₂.capabilities, hs₂.reports⟩
    rw [htask]
    refine .stopping (hq₂.trans ?_) hg₀ hact₀
    exact quiet_updateSegment (fun _ => rfl) (fun _ => rfl) fun g _ _ hp =>
      ⟨SegmentStatus.launched_ne_exited hp, by simp⟩

/-- Materialising finds no question, or releases the first one that waits and asks it. -/
theorem materialize_cases {segmentId kind id : String}
    (h : materializePendingReportQuestion env s segmentId kind id = .ok s') :
    s.pendingReportQuestion segmentId = none ∧ s' = s ∨ ∃ r c order s₁,
      s.pendingReportQuestion segmentId = some r ∧
      s.reportCapabilities.find? r.capabilityId = some c ∧ r.body.segmentId = segmentId ∧
      s.appendDelivery r.eventId c.taskId = some order ∧
      applyQuestion { s with
        reportEvents := s.reportEvents.update
          (fun q => q.eventId = r.eventId && q.deliveryStatus = .pendingSession)
          (fun q => { q with
            body := { r.body with sessionKind := kind, sessionId := id }
            deliveryStatus := .pending })
        deliveryOrder := order } { r.body with sessionKind := kind, sessionId := id } = .ok s₁ ∧
      ensureQuestionStop env s₁ { r.body with sessionKind := kind, sessionId := id } = .ok s' := by
  unfold materializePendingReportQuestion at h
  split at h
  next hnone =>
    cases h
    exact .inl ⟨hnone, rfl⟩
  next r hpend =>
    simp only [bind_ok_iff, require_ok, expect_ok, exists_const] at h
    obtain ⟨c, hc, ⟨-, hseg⟩, order, horder, s₁, h₁, h₂⟩ := h
    exact .inr ⟨r, c, order, s₁, hpend, hc, hseg, horder, h₁, h₂⟩

/-- A session of a segment that has not exited releases the question that waits for it. -/
theorem applySession_cases (h : applySession env s e = .ok s') :
    s' = s ∨ ∃ (row : SegmentSession) (sessions : Table SegmentSession.segmentId),
      (s.sessions.find? e.segmentId = some row ∧ sessions = s.sessions ∧
          row.sessionKind = e.sessionKind ∧ row.sessionId = e.sessionId ∨
        s.sessions.find? e.segmentId = none ∧
          row = ⟨e.segmentId, e.attemptId, e.sessionKind, e.sessionId, e.eventId⟩ ∧
          s.sessions.insert? row = some sessions) ∧ e.sessionId ≠ "" ∧
      materializePendingReportQuestion env { s with sessions := sessions } e.segmentId
        e.sessionKind e.sessionId = .ok s' := by
  simp only [applySession, bind_ok_iff, require_ok, expect_ok, exists_const] at h
  obtain ⟨⟨-, -, hne, -⟩, g, -, h⟩ := h
  split at h
  · cases h
    exact .inl rfl
  · split at h
    next row hrow =>
      simp only [bind_ok_iff, require_ok, exists_const] at h
      exact .inr ⟨row, s.sessions, .inl ⟨hrow, rfl, h.1⟩, hne, h.2⟩
    next hnone =>
      simp only [bind_ok_iff, require_ok, expect_ok, exists_const] at h
      obtain ⟨-, sessions, hi, h⟩ := h
      exact .inr ⟨_, sessions, .inr ⟨hnone, rfl, hi⟩, hne, h⟩

/-- An exit settles its segment once. -/
theorem applyExit_cases (h : d.applyExit s e = .ok s') :
    ∃ g, s.segments.find? e.segmentId = some g ∧ (g.status = .exited ∧ s' = s ∨
      g.status ≠ .exited ∧ ∃ t core, s.tasks.find? e.taskId = some t ∧
        (((s.toCore.settle e.segmentId
          (settledMs e.activeMs g.reservation.grantedMs)).setAttemptStatus e.attemptId
          (exitStatus d t g.outcome e).1).setTaskStatus e.taskId
          (exitStatus d t g.outcome e).2).afterExit e.taskId (exitStatus d t g.outcome e).2 =
            .ok core ∧
        s' = { s with
          toCore := core
          stops := setStopRows s.stops e.segmentId .completed
          questions := s.questions.update
            (fun q => q.taskId = e.taskId && q.attemptId = e.attemptId &&
              q.status = .resumeStarted)
            (fun q => { q with status := .resolved }) }) := by
  simp only [DB.applyExit, bind_ok_iff, expect_ok] at h
  obtain ⟨g, hg, h⟩ := h
  refine ⟨g, hg, ?_⟩
  split at h
  next hexit =>
    cases h
    exact .inl ⟨hexit, rfl⟩
  next hact =>
    simp only [bind_ok_iff, expect_ok, Except.ok.injEq] at h
    obtain ⟨t, ht, core, hcore, rfl⟩ := h
    exact .inr ⟨hact, t, core, ht, hcore, rfl⟩

theorem materialize_move {s₀ : State} {segmentId kind id : String} (hb : Bound s₀)
    (hq : Quiet s₀.toCore s.toCore) (hs : Settled s₀ s) (hr : s.reportEvents = s₀.reportEvents)
    (h : materializePendingReportQuestion env s segmentId kind id = .ok s') :
    Move d op none s₀.toCore s'.toCore ∧ Settled s₀ s' := by
  obtain ⟨-, rfl⟩ | ⟨r, c, order, s₁, hpend, -, hseg, -, h₁, h₂⟩ :=
    materialize_cases h
  · exact ⟨.quiet hq, hs⟩
  · have hm : r ∈ s₀.reportEvents := by
      have := (List.mem_filter.mp (List.argmin_mem hpend)).1
      rwa [hr] at this
    refine askAndStop_move (s := { s with
      reportEvents := _, deliveryOrder := order }) hq (hs.trans ⟨List.prefix_rfl, rfl, ?_⟩) ?_ h₁ h₂
    · -- only the row of `r` is rewritten, and it keeps its binding
      rw [Table.rows_update, List.map_map]
      refine List.map_congr_left fun q hq => ?_
      simp only [Function.comp_apply]
      unfold Table.patch
      split
      · rename_i hsel
        simp only [Bool.and_eq_true, decide_eq_true_eq] at hsel
        obtain rfl : q = r := Table.eq_of_key (t := s.reportEvents) hq (hr ▸ hm) hsel.1
        rfl
      · rfl
    · intro g hg hid
      exact hb.report_names hm hg hid

theorem applySession_move {s₀ : State} (hb : Bound s₀) (hq : Quiet s₀.toCore s.toCore)
    (hs : Settled s₀ s) (hr : s.reportEvents = s₀.reportEvents)
    (h : applySession env s e = .ok s') : Move d op none s₀.toCore s'.toCore ∧ Settled s₀ s' := by
  obtain rfl | ⟨row, sessions, -, -, h⟩ := applySession_cases h
  · exact ⟨.quiet hq, hs⟩
  · exact materialize_move hb (s := { s with sessions := sessions }) hq ⟨hs.1, hs.2, hs.3⟩ hr h

theorem applyUnknown_move {c : Core} (hn : ∀ g ∈ c.segments, g.id = e.segmentId → Names e g) :
    Move d op none c (c.applyUnknown e) := by
  unfold Core.applyUnknown
  split
  · rename_i hany
    simp only [Option.any_eq_true, decide_eq_true_eq] at hany
    obtain ⟨g, hg, hact⟩ := hany
    obtain ⟨hm, hid⟩ := Table.find?_eq_some.mp hg
    obtain ⟨-, ht, ha⟩ := hn g hm hid
    rw [ht, ha]
    refine .unknown ?_ hm (Segment.active_iff.mpr hact)
    exact quiet_updateSegment (fun _ => rfl) (fun _ => rfl) fun g _ _ hp =>
      ⟨by simpa using hp, by simp⟩
  · exact .idle d _ c

theorem exitEnds_eq {c : Core} {g : Segment} {t : Task} (hg : g ∈ c.segments)
    (hid : g.id = e.segmentId) (ht : t ∈ c.tasks) (htid : t.id = e.taskId) : c.exitEnds e =
      if (g.active = true ∧ g.outcome = .failed) ∧ c.spent t then some e.taskId else none := by
  have hseg : (∃ k ∈ c.segments.rows, k.id = e.segmentId ∧ k.active = true ∧ k.outcome = .failed) ↔
      g.active = true ∧ g.outcome = .failed := by
    constructor
    · rintro ⟨k, hk, hkid, h⟩
      obtain rfl : k = g := Table.eq_of_key hk hg (hkid.trans hid.symm)
      exact h
    · exact fun h => ⟨g, hg, hid, h⟩
  have htask : (∃ u ∈ c.tasks.rows, u.id = e.taskId ∧ c.spent u) ↔ c.spent t := by
    constructor
    · rintro ⟨u, hu, huid, h⟩
      obtain rfl : u = t := Table.eq_of_key hu ht (huid.trans htid.symm)
      exact h
    · exact fun h => ⟨t, ht, htid, h⟩
  unfold Core.exitEnds
  rw [if_congr (and_congr hseg htask) rfl rfl]

theorem exitStatus_failed {t : Task} {outcome : Outcome} :
    (exitStatus d t outcome e).2 = .failed ↔ outcome = .failed := by
  cases outcome <;> simp only [exitStatus, reduceCtorEq]
  split <;> simp

theorem spent_exited {c : Core} {g : Segment} {t u : Task} :
    (d.exited c g t e).spent u ↔ c.spent u := by
  have : (d.exited c g t e).taskAttempts u.id = c.taskAttempts u.id :=
    Core.taskAttempts_setAttemptStatus (c := c.settle g.id _) u.id
  unfold Core.spent
  rw [this]

theorem blockIfExhausted_cases {c c' : Core} {taskId : String}
    (h : c.blockIfExhausted taskId = .ok c') : ∃ t ∈ c.tasks, t.id = taskId ∧
      ((c.spent t ∧ c' = blockFailedDependencies c) ∨ (¬ c.spent t ∧ c' = c)) := by
  simp only [Core.blockIfExhausted, bind_ok_iff, expect_ok, require_ok, exists_const,
    Except.ok.injEq] at h
  obtain ⟨t, ht, -, rfl⟩ := h
  obtain ⟨hm, hid⟩ := Table.find?_eq_some.mp ht
  refine ⟨t, hm, hid, ?_⟩
  split
  · rename_i hx; exact .inl ⟨hx, rfl⟩
  · rename_i hx; exact .inr ⟨hx, rfl⟩

theorem spent_iff {c : Core} {t u : Task} (hs : u.static = t.static) : c.spent u ↔ c.spent t := by
  unfold Core.spent; rw [Task.static_id hs, Task.static_maxAttempts hs]

/-- The rows of a task and of its later version are spent together. -/
theorem static_of_kept {c c' : Core} (hk : Kept c c') {t u : Task} (ht : t ∈ c.tasks)
    (hu : u ∈ c'.tasks) (hid : u.id = t.id) : u.static = t.static := by
  obtain ⟨v, hv, hst⟩ := hk.task ht
  obtain rfl : u = v := Table.eq_of_key hu hv (hid.trans (Task.static_id hst).symm)
  exact hst

/-- What follows an exit, as a move. -/
theorem afterExit_move {c c' : Core} {g : Segment} {t : Task} (hg : g ∈ c.segments)
    (ha : g.active = true) (ht : t ∈ c.tasks) (hid : t.id = g.taskId) (he : Exits op e g)
    (h : (d.exited c g t e).afterExit t.id (exitStatus d t g.outcome e).2 = .ok c') :
    Move d op
      (if (g.active = true ∧ g.outcome = .failed) ∧ c.spent t then some t.id else none) c c' := by
  unfold Core.afterExit at h
  split at h
  · rename_i hc
    cases h
    have hf : g.outcome ≠ .failed := fun hf => by
      rw [(exitStatus_failed (d := d) (t := t) (e := e)).mpr hf] at hc; cases hc
    rw [if_neg fun hx => hf hx.1.2]
    exact .complete hg ha ht hid hc he
  · rename_i hf
    have hfail := exitStatus_failed.mp hf
    obtain ⟨u, hu, huid, hx⟩ := blockIfExhausted_cases h
    have hsame : (d.exited c g t e).spent u ↔ c.spent t :=
      spent_exited.trans (spent_iff (static_of_kept exited_kept ht hu huid))
    obtain ⟨hsp, rfl⟩ | ⟨hsp, rfl⟩ := hx
    · rw [if_pos ⟨⟨ha, hfail⟩, hsame.mp hsp⟩]
      exact .exhaust hg ha ht hid hf (hsame.mp hsp) he
    · rw [if_neg fun hx => hsp (hsame.mpr hx.2)]
      exact .exit hg ha ht hid (by rw [hf]; simp) (fun hx => hsp (hsame.mpr hx.2)) he
  · rename_i hc hf
    cases h
    rw [if_neg fun hx => hf (exitStatus_failed.mpr hx.1.2)]
    exact .exit hg ha ht hid hc (fun hx => hf hx.1) he

theorem applyExit_move (hk : e.kind = .exited)
    (hn : ∀ g ∈ s.segments, g.id = e.segmentId → Names e g)
    (h : d.applyExit s e = .ok s') :
    Move d (.commitHostEvent env e) (s.exitEnds e) s.toCore s'.toCore ∧ Settled s s' := by
  obtain ⟨g, hg, hcases⟩ := applyExit_cases h
  obtain ⟨hm, hid⟩ := Table.find?_eq_some.mp hg
  obtain ⟨hexit, rfl⟩ | ⟨hact, t, core, ht, hcore, rfl⟩ := hcases
  · refine ⟨?_, .refl _⟩
    rw [Core.exitEnds, if_neg]
    · exact .idle d _ _
    · rintro ⟨⟨k, hk, hkid, hact, -⟩, -⟩
      obtain rfl : k = g := Table.eq_of_key hk hm (hkid.trans hid.symm)
      exact Segment.active_iff.mp hact hexit
  · obtain ⟨htm, htid⟩ := Table.find?_eq_some.mp ht
    obtain ⟨hs, htask, hatt⟩ := hn g hm hid
    refine ⟨?_, List.prefix_rfl, rfl, rfl⟩
    rw [exitEnds_eq hm hid htm htid, ← htid]
    refine afterExit_move (e := e) hm (Segment.active_iff.mpr hact) htm (by rw [htid, htask])
      ⟨rfl, hk, hs, htask, hatt⟩ ?_
    rw [DB.exited, htid, ← hatt, ← hs]
    exact hcore

/-- The move an event makes. -/
theorem applyEvent_move {s₀ : State} (hb : Bound s₀) (hcore : s.toCore = s₀.toCore)
    (hs : Settled s₀ s) (hr : s.reportEvents = s₀.reportEvents)
    (hn : ∀ g ∈ s.segments, g.id = e.segmentId → Names e g) (h : d.applyEvent env s e = .ok s') :
    Move d (.commitHostEvent env e)
      (if e.kind = .exited then s₀.exitEnds e else none) s₀.toCore s'.toCore ∧
      Settled s₀ s' := by
  have hq : Quiet s₀.toCore s.toCore := hcore ▸ .refl _
  unfold DB.applyEvent at h
  split at h <;> rename_i hk <;> simp only [hk, reduceCtorEq, if_false, if_true]
  · cases h; exact ⟨.quiet (hq.trans (applyPhase_quiet _ _ (by simp))), hs.1, hs.2, hs.3⟩
  · cases h; exact ⟨.quiet (hq.trans (applyPhase_quiet _ _ (by simp))), hs.1, hs.2, hs.3⟩
  · cases h; exact ⟨.quiet (hq.trans (applyPhase_quiet _ _ (by simp))), hs.1, hs.2, hs.3⟩
  · exact applySession_move hb hq hs hr h
  · obtain ⟨hq', hs'⟩ := applyQuestion_quiet h
    exact ⟨.quiet (hq.trans hq'), hs.trans hs'⟩
  · cases h; exact ⟨.quiet (hq.trans (setOutcome_quiet _ _)), hs.1, hs.2, hs.3⟩
  · cases h; exact ⟨.quiet (hq.trans (setOutcome_quiet _ _)), hs.1, hs.2, hs.3⟩
  · cases h; exact ⟨.quiet (hq.trans (setOutcome_quiet _ _)), hs.1, hs.2, hs.3⟩
  · cases h; exact ⟨hcore ▸ applyUnknown_move hn, hs.1, hs.2, hs.3⟩
  · obtain ⟨hm, hs'⟩ := applyExit_move hk hn h
    exact ⟨hcore ▸ hm, hs.trans hs'⟩
  · cases h

/-- The log entry of an event: nothing but the log changes. -/
theorem appendEvent_frame (h : d.appendEvent s e = .ok s') :
    ∃ events order usage, s' = { s with
      runtimeEvents := events, deliveryOrder := order, storageUsage := usage } := by
  simp only [DB.appendEvent, bind_ok_iff, expect_ok, Except.ok.injEq] at h
  obtain ⟨events, -, order, -, rfl⟩ := h
  exact ⟨events, order, _, rfl⟩

/-- An accepted event is a repetition, or is appended and applied to its segment. -/
theorem commitHostEvent_cases {ack : DurableAck} (h : d.commitHostEvent env s e = .ok (s', ack)) :
    ((∃ r ∈ s.runtimeEvents.rows, r.producerId = e.producerId ∧ r.sequence = e.sequence) ∧
        s' = s) ∨
      (∀ r ∈ s.runtimeEvents.rows, ¬ (r.producerId = e.producerId ∧ r.sequence = e.sequence)) ∧
        ∃ g s₁, g ∈ s.segments ∧ g.id = e.segmentId ∧ boundTo e g ∧
          d.appendEvent s e = .ok s₁ ∧ d.applyEvent env s₁ e = .ok s' := by
  simp only [DB.commitHostEvent, bind_ok_iff, require_ok, expect_ok, exists_const] at h
  obtain ⟨-, host, -, -, h⟩ := h
  split at h
  · rename_i old hold
    simp only [bind_ok_iff, require_ok, exists_const, Except.ok.injEq, Prod.mk.injEq] at h
    have hsel := List.find?_some hold
    simp only [Bool.and_eq_true, decide_eq_true_eq] at hsel
    exact .inl ⟨⟨old, List.mem_of_find?_eq_some hold, hsel⟩, h.2.1.symm⟩
  · rename_i hnone
    simp only [DB.commitNew, bind_ok_iff, require_ok, expect_ok, exists_const, Except.ok.injEq,
      Prod.mk.injEq] at h
    obtain ⟨-, incoming, -, _, -, g, hg, hbound, s₁, h₁, s₂, h₂, rfl, -⟩ := h
    obtain ⟨hm, hid⟩ := Table.find?_eq_some.mp hg
    refine .inr ⟨fun r hr hx => ?_, g, s₁, hm, hid, hbound, h₁, h₂⟩
    have := List.find?_eq_none.mp hnone r hr
    simp [hx] at this

theorem names_of_bound {g : Segment} (hg : g ∈ s.segments) (hid : g.id = e.segmentId)
    (hb : boundTo e g) : ∀ k ∈ s.segments, k.id = e.segmentId → Names e k := by
  intro k hk hkid
  obtain rfl : k = g := Table.eq_of_key hk hg (hkid.trans hid.symm)
  exact ⟨hid.symm, hb.2.2.1.symm, hb.2.2.2.symm⟩

theorem commitHostEvent_move {ack : DurableAck} (hb : Bound s)
    (h : d.commitHostEvent env s e = .ok (s', ack)) :
    Move d (.commitHostEvent env e)
      (s.ended (.commitHostEvent env e)) s.toCore s'.toCore ∧ Bound s' := by
  obtain ⟨⟨r, hr, hx⟩, rfl⟩ | ⟨hnew, g, s₁, hg, hid, hbound, h₁, h₂⟩ := commitHostEvent_cases h
  · rw [State.ended, if_neg fun h => h.2 r hr hx]
    exact ⟨.idle d _ _, hb⟩
  · have hn := names_of_bound hg hid hbound
    obtain ⟨events, order, usage, rfl⟩ := appendEvent_frame h₁
    obtain ⟨hm, hs⟩ := applyEvent_move (s := { s with
      runtimeEvents := events, deliveryOrder := order, storageUsage := usage }) hb rfl
      ⟨List.prefix_rfl, rfl, rfl⟩ rfl hn h₂
    refine ⟨?_, hb.keep hm.kept hs⟩
    rwa [State.ended, if_congr (and_iff_left hnew) rfl rfl]

end Events

/-! ## Reports -/

section Reports
variable {d : DB} {op : Op} {env : Env} {s s' : State} {c : ReportCapability}
    {spec : ReportEventSpec}
  {kind : ReportKind} {e : Event} {payloadHash : String}

theorem appendReport_frame (h : d.appendReport s c spec kind payloadHash e = .ok s') :
    ∃ row events order usage, s.reportEvents.insert? row = some events ∧ row.body = e ∧
      row.capabilityId = spec.capabilityId ∧
      s' = { s with
        reportEvents := events
        storageUsage := usage
        deliveryOrder := order
        reportCapabilities := s.reportCapabilities.update
          (fun r => r.capabilityId = spec.capabilityId)
          (fun r => { r with usedBytes := r.usedBytes + d.accountedBytes kind e }) } := by
  simp only [DB.appendReport, bind_ok_iff, require_ok, expect_ok, exists_const,
    Except.ok.injEq] at h
  obtain ⟨-, events, hi, order, -, rfl⟩ := h
  exact ⟨_, events, order, _, hi, rfl, rfl, rfl⟩

theorem Bound.appendReport (hb : Bound s) (hc : c ∈ s.reportCapabilities)
    (hid : c.capabilityId = spec.capabilityId) (hseg : e.segmentId = c.segmentId)
    (htask : e.taskId = c.taskId) (hatt : e.attemptId = c.attemptId)
    (h : d.appendReport s c spec kind payloadHash e = .ok s') :
    s'.toCore = s.toCore ∧ Bound s' := by
  obtain ⟨row, events, order, usage, hi, hbody, hcap, rfl⟩ := appendReport_frame h
  refine ⟨rfl, ?_⟩
  have hst := map_static_update (t := s.reportCapabilities)
    (p := fun r => r.capabilityId = spec.capabilityId)
    (f := fun r => { r with usedBytes := r.usedBytes + d.accountedBytes kind e })
    (h := fun _ => rfl) ReportCapability.static fun _ => rfl
  generalize s.reportCapabilities.update (fun r => r.capabilityId = spec.capabilityId)
    (fun r => { r with usedBytes := r.usedBytes + d.accountedBytes kind e }) _ = caps at hst ⊢
  have hkeep : Bound { s with reportCapabilities := caps } :=
    hb.keep (.refl _) ⟨List.prefix_rfl, hst, rfl⟩
  refine ⟨hkeep.launches, hkeep.capabilities, fun r hr => ?_⟩
  rcases (Table.mem_insert hi).mp hr with hr | rfl
  · exact hkeep.reports r hr
  · obtain ⟨c', hc', -, hst'⟩ := mem_of_map_eq hst.symm hc
    obtain ⟨h0, h1, h2, h3⟩ := ReportCapability.static_binding hst'
    exact ⟨c', hc', by rw [← h0, hid, hcap], by rw [hbody, hseg, h1], by rw [hbody, htask, h2],
      by rw [hbody, hatt, h3]⟩

theorem validateReportPayload_decoded {p : Platform} {probe : ArtifactProbe} {raw dir : String}
    (h : p.validateReportPayload probe kind raw dir = .ok e) :
    p.decodeReportPayload kind raw = .ok e := by
  simp only [Platform.validateReportPayload, bind_ok_iff] at h
  obtain ⟨e', hdec, h⟩ := h
  split at h
  · simp only [bind_ok_iff, require_ok, exists_const, Except.ok.injEq] at h
    rwa [← h.2]
  · simp only [bind_ok_iff, Except.ok.injEq] at h
    obtain ⟨_, -, rfl⟩ := h
    exact hdec

theorem commitReportEvent_cases {probe : ArtifactProbe} {ack : DurableAck}
    (h : d.commitReportEvent env probe s spec = .ok (s', ack)) :
    s' = s ∨ ∃ c kind payload payloadHash e₀ e s₁, c ∈ s.reportCapabilities ∧
      c.capabilityId = spec.capabilityId ∧ c.status = .registered ∧
      parseReportKind spec.kind = some kind ∧
      d.canonicalReportPayload spec.payload = some payload ∧
      d.decodeReportPayload kind payload = .ok e₀ ∧
      e = reportEvent c spec kind payloadHash (s.sessions.find? c.segmentId) e₀ ∧
      (kind = .question → s.openQuestions c.taskId = 0) ∧
      d.appendReport s c spec kind payloadHash e = .ok s₁ ∧
      ((¬ (kind = .question ∧ e.sessionId ≠ "") ∧ s' = s₁) ∨
        (kind = .question ∧ e.sessionId ≠ "" ∧ ∃ s₂, applyQuestion s₁ e = .ok s₂ ∧
          ensureQuestionStop env s₂ e = .ok s')) := by
  simp only [DB.commitReportEvent, bind_ok_iff, require_ok, expect_ok, exists_const] at h
  obtain ⟨-, kind, hkind, c, hc, host, -, ⟨hreg, -⟩, payload, hpayload, h⟩ := h
  obtain ⟨hcm, hcid⟩ := Table.find?_eq_some.mp hc
  split at h
  · simp only [DB.repeatReport, bind_ok_iff, require_ok, exists_const, Except.ok.injEq,
      Prod.mk.injEq] at h
    obtain ⟨-, _, -, -, rfl, -⟩ := h
    exact .inl rfl
  · simp only [DB.commitNewReport, bind_ok_iff, require_ok, exists_const, Except.ok.injEq,
      Prod.mk.injEq] at h
    obtain ⟨-, e₀, hvalid, _, -, -, hopen, s₁, h₁, s₂, h₂, rfl, -⟩ := h
    refine .inr ⟨c, kind, payload, _, e₀, _, s₁, hcm, hcid, hreg, hkind, hpayload,
      validateReportPayload_decoded hvalid, rfl, hopen, h₁, ?_⟩
    unfold askReported at h₂
    split at h₂
    · rename_i hq
      exact .inr ⟨hq.1, hq.2, bind_ok_iff.mp h₂⟩
    · rename_i hq
      cases h₂
      exact .inl ⟨hq, rfl⟩

theorem commitReportEvent_move {probe : ArtifactProbe} {ack : DurableAck} (hb : Bound s)
    (h : d.commitReportEvent env probe s spec = .ok (s', ack)) :
    Move d op none s.toCore s'.toCore ∧ Bound s' := by
  obtain rfl | ⟨c, kind, payload, payloadHash, e₀, e, s₁, hc, hid, -, -, -, -, he, -, h₁, h₂⟩ :=
    commitReportEvent_cases h
  · exact ⟨.idle d _ _, hb⟩
  · have hseg : e.segmentId = c.segmentId := by rw [he]; rfl
    have htask : e.taskId = c.taskId := by rw [he]; rfl
    have hatt : e.attemptId = c.attemptId := by rw [he]; rfl
    obtain ⟨hcore, hb₁⟩ := hb.appendReport hc hid hseg htask hatt h₁
    rcases h₂ with ⟨-, rfl⟩ | ⟨-, -, s₂, hask, hstop⟩
    · exact ⟨hcore ▸ .idle d _ _, hb₁⟩
    · have hn : ∀ g ∈ s₁.segments, g.id = e.segmentId → Names e g := by
        intro g hg hgid
        rw [hcore] at hg
        obtain ⟨k, hk, h1, h2, h3⟩ := hb.capabilities c hc
        obtain rfl : g = k := Table.eq_of_key hg hk (by rw [hgid, hseg, h1])
        exact ⟨hgid.symm, by rw [htask, h2], by rw [hatt, h3]⟩
      obtain ⟨hm, hs⟩ := askAndStop_move (d := d) (.refl _) (.refl _) hn hask hstop
      exact ⟨hcore ▸ hm, hb₁.keep hm.kept hs⟩

theorem registerReportCapability_move {info : Option FileInfo} {r : ReportCapabilityRegistration}
    {ack : DurableAck} (hb : Bound s)
    (h : d.registerReportCapability s info r = .ok (s', ack)) :
    Move d op none s.toCore s'.toCore ∧ Bound s' := by
  have hs : s'.toCore = s.toCore ∧ Settled s s' := by
    simp only [DB.registerReportCapability, bind_ok_iff, require_ok, expect_ok, exists_const,
      Except.ok.injEq, Prod.mk.injEq] at h
    obtain ⟨-, _, -, -, c, -, host, -, -, -, -, rfl, -⟩ := h
    refine ⟨rfl, List.prefix_rfl, ?_, rfl⟩
    exact map_static_update (h := by simp) ReportCapability.static fun _ => rfl
  exact ⟨hs.1 ▸ .idle d _ _, hb.keep (hs.1 ▸ .refl _) hs.2⟩

end Reports
end Orchestrator.Store
