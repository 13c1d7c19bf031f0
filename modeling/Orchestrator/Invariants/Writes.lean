import Orchestrator.Invariants.Steps

/-!
# What an operation writes

`Writes` lists the tables each accepted operation rewrites and what it puts
there. What a table keeps over an operation is read off by cases.
-/
namespace Orchestrator.Store
open Library

/-- The operation is one of those on Host launches. -/
def Op.fleet : Op → Bool
  | .beginCoordinatorEpoch _ | .registerHost _ _ | .authorizeHostRebind _ _ _
  | .beginHostReconcile _ | .finishHostReconcile _ | .markHostOffline _ _ | .retireHost _
  | .rebindOwner _ => true
  | _ => false

/-- The entry of the event log, whatever became of its delivery. -/
def RuntimeEvent.entry (r : RuntimeEvent) : RuntimeEvent := { r with deliveryStatus := .internal }

/-- The report before its delivery was acknowledged. -/
def ReportEvent.unacked (r : ReportEvent) : ReportEvent :=
  { r with deliveryStatus := if r.deliveryStatus = .acked then .pending else r.deliveryStatus }

inductive Writes (d : DB) (s : State) : Op → State → Prop
  | same (op : Op) : Writes d s op s
  | plan {env : Env} {p : PlanSpec} {core : Core} {runs : Table Run.id} {row : HostLaunch}
      {launches : Table HostLaunch.id} {launchId stamp : String}
      (hl : s.hostLaunches.insert? row = some launches)
      (hrow : row.status = .reserved ∧ row.hostId = none)
      (hcore : p.tasks.foldlM (d.insertTask launchId stamp) s.toCore = .ok core) :
      Writes d s (.submitPlan env p)
        { s with toCore := core, runs := runs, hostLaunches := launches }
  | fleet {op : Op} {epoch : Option Nat} {runs : Table Run.id} {hosts : Table RuntimeHost.id}
      {launches : Table HostLaunch.id}
      {rebinds : Table (fun r : OwnerRebind => (r.runId, r.hostGeneration))}
      (hop : op.fleet = true) :
      Writes d s op { s with
        coordinatorEpoch := epoch
        runs := runs
        hosts := hosts
        hostLaunches := launches
        ownerRebinds := rebinds }
  | claim {env : Env} {hostId : String} {epoch : Nat} {slots : Int} {t : Task} {place : Placement}
      {cmd : LaunchCommand} {s' : State} (h : Claimed d env s hostId epoch slots t place s' cmd) :
      Writes d s (.claimReady env hostId epoch slots) s'
  | pending {hostId : String} {epoch : Nat} :
      Writes d s (.pendingLaunches hostId epoch) { s with
        toCore := s.toCore.updateSegments
          (fun g => g.hostId = hostId && g.status = .launchRequested)
          (fun g => { g with executionEpoch := epoch }) }
  | resume {t : Task} {workRevision : Int} (ht : t ∈ s.tasks) (hst : t.status = .interrupted)
      (hidle : s.taskActive t.id = 0) :
      Writes d s (.queueResume t.id workRevision)
        { s with toCore := s.toCore.enqueue t.id .resumeQueued }
  | answer {spec : AnswerSpec} {t : Task} {q : Question} {hash : String} (ht : t ∈ s.tasks)
      (hid : t.id = spec.taskId) (hst : t.status = .waitingQuestion)
      (hidle : s.taskActive t.id = 0) (hq : q ∈ s.questions) (hqid : q.questionId = spec.questionId)
      (hqt : q.taskId = t.id) (hopen : q.status = .open)
      (hlast : (s.latestSegment t.id).map Segment.id = some q.segmentId) :
      Writes d s (.answerQuestion spec) { s with
        toCore := s.toCore.enqueue t.id .resumeQueued
        questions := s.questions.update
          (fun q => q.questionId = spec.questionId && q.status = .open)
          (fun q => { q with
            status := .resumeQueued, answerHash := hash, answerText := spec.answer }) }
  | review {spec : ReviewSpec} {t : Task} {core : Core}
      {reviews : Table ReviewDecision.actionSlot} (ht : t ∈ s.tasks) (hid : t.id = spec.taskId)
      (hst : t.status = .resultReady)
      (hcore : core = s.toCore.accept t.id ∨
        ∃ attemptId, s.toCore.reject t.id attemptId = .ok core) :
      Writes d s (.reviewResult spec) { s with toCore := core, reviewDecisions := reviews }
  | retry {spec : RetrySpec} {t : Task} {payload : Option String}
      {retries : Table RetryDecision.actionSlot} (ht : t ∈ s.tasks) (hid : t.id = spec.taskId)
      (hst : t.status = .failed) :
      Writes d s (.queueRetry spec) { s with
        toCore := (s.toCore.setAdapter t.id payload).enqueue t.id .ready
        retryDecisions := retries }
  | ack {taskId deliveryId proof : String} {as : List AckDecision}
      {decisions : Table RuntimeDecision.actionSlot} {events : Table RuntimeEvent.eventId}
      {reports : Table ReportEvent.eventId} {receipts : Table DeliveryReceipt.deliveryId}
      (he : events.rows.map RuntimeEvent.entry = s.runtimeEvents.rows.map RuntimeEvent.entry)
      (hr : reports.rows.map ReportEvent.unacked = s.reportEvents.rows.map ReportEvent.unacked) :
      Writes d s (.ackDecisions taskId deliveryId proof as) { s with
        runtimeDecisions := decisions
        runtimeEvents := events
        reportEvents := reports
        deliveryReceipts := receipts }
  | cancel {env : Env} {t : Task} {workRevision : Int} {reason : String} (ht : t ∈ s.tasks)
      (hc : t.status.cancellable = true) :
      Writes d s (.requestStop env t.id workRevision reason)
        { s with toCore := s.toCore.cancel t.id }
  | stop {env : Env} {g : Segment} {workRevision : Int} {reason : String}
      {stops : Table StopRow.segmentId} (hg : g ∈ s.segments) (ha : g.active = true)
      (hfree : s.stops.find? g.id = none) (hi : s.insertStop env g reason = some stops) :
      Writes d s (.requestStop env g.taskId workRevision reason)
        { s with toCore := s.toCore.stopSegment g.id g.taskId, stops := stops }
  | sweep : Writes d s .markStoppingUnknown { s with
        toCore := s.toCore.markStoppingUnknown
        stops := s.stops.update (fun r => r.status = .pending || r.status = .accepted)
          (fun r => { r with status := .unknown }) }
  | register {info : Option FileInfo} {r : ReportCapabilityRegistration}
      {f : ReportCapability → ReportCapability} {hf : ∀ c, (f c).capabilityId = c.capabilityId}
      (hst : ∀ c, (f c).static = c.static) :
      Writes d s (.registerReportCapability info r) { s with
        reportCapabilities := s.reportCapabilities.update
          (fun c => c.capabilityId = r.capabilityId) f hf }
  | report {env : Env} {probe : ArtifactProbe} {spec : ReportEventSpec} {c : ReportCapability}
      {kind : ReportKind} {payload payloadHash : String} {e₀ : Event} {s₁ s' : State}
      (hc : c ∈ s.reportCapabilities) (hid : c.capabilityId = spec.capabilityId)
      (hkind : parseReportKind spec.kind = some kind)
      (hdec : d.decodeReportPayload kind payload = .ok e₀)
      (hopen : kind = .question → s.openQuestions c.taskId = 0)
      (h₁ : d.appendReport s c spec kind payloadHash
        (reportEvent c spec kind payloadHash (s.sessions.find? c.segmentId) e₀) = .ok s₁)
      (h₂ : askReported env s₁ kind
        (reportEvent c spec kind payloadHash (s.sessions.find? c.segmentId) e₀) = .ok s') :
      Writes d s (.commitReportEvent env probe spec) s'
  | event {env : Env} {e : Event} {g : Segment} {s₁ s' : State} (hwf : wellFormed e)
      (hnext : e.sequence = s.lastSequence e.producerId + 1) (hg : g ∈ s.segments)
      (hid : g.id = e.segmentId) (hbound : boundTo e g) (h₁ : d.appendEvent s e = .ok s₁)
      (h₂ : d.applyEvent env s₁ e = .ok s') :
      Writes d s (.commitHostEvent env e) s'

/-! ## Frames of the event handlers -/

section Frames
variable {d : DB} {env : Env} {s s' : State} {e : Event} {kind : ReportKind}

theorem applyQuestion_frame (h : applyQuestion s e = .ok s') :
    ∃ core questions, s' = { s with toCore := core, questions := questions } := by
  obtain rfl | ⟨g, questions, -, -, -, -, rfl⟩ := applyQuestion_cases h
  · exact ⟨_, _, rfl⟩
  · exact ⟨_, _, rfl⟩

theorem ensureQuestionStop_frame (h : ensureQuestionStop env s e = .ok s') :
    ∃ core stops, s' = { s with toCore := core, stops := stops } := by
  obtain rfl | ⟨g, stops, -, -, -, rfl⟩ := ensureQuestionStop_cases h
  · exact ⟨_, _, rfl⟩
  · exact ⟨_, _, rfl⟩

theorem askReported_frame (h : askReported env s kind e = .ok s') :
    ∃ core questions stops,
      s' = { s with toCore := core, questions := questions, stops := stops } := by
  unfold askReported at h
  split at h
  · obtain ⟨s₁, h₁, h₂⟩ := bind_ok_iff.mp h
    obtain ⟨core, questions, rfl⟩ := applyQuestion_frame h₁
    obtain ⟨core', stops, rfl⟩ := ensureQuestionStop_frame h₂
    exact ⟨core', questions, stops, rfl⟩
  · cases h
    exact ⟨_, _, _, rfl⟩

theorem materialize_frame {segmentId sessionKind sessionId : String}
    (h : materializePendingReportQuestion env s segmentId sessionKind sessionId = .ok s') :
    ∃ core reports order questions stops, s' = { s with
      toCore := core
      reportEvents := reports
      deliveryOrder := order
      questions := questions
      stops := stops } := by
  obtain ⟨-, rfl⟩ | ⟨r, c, order, s₁, -, -, -, -, h₁, h₂⟩ := materialize_cases h
  · exact ⟨_, _, _, _, _, rfl⟩
  · obtain ⟨core, questions, rfl⟩ := applyQuestion_frame h₁
    obtain ⟨core', stops, rfl⟩ := ensureQuestionStop_frame h₂
    exact ⟨core', _, order, questions, stops, rfl⟩

/-- An event is applied to the scheduling rows, to questions, reports, sessions and stops. -/
theorem applyEvent_frame (h : d.applyEvent env s e = .ok s') :
    ∃ core reports order questions sessions stops, s' = { s with
      toCore := core
      reportEvents := reports
      deliveryOrder := order
      questions := questions
      sessions := sessions
      stops := stops } := by
  unfold DB.applyEvent at h
  split at h
  case h_4 =>
    obtain rfl | ⟨row, sessions, -, -, h⟩ := applySession_cases h
    · exact ⟨_, _, _, _, _, _, rfl⟩
    · obtain ⟨core, reports, order, questions, stops, rfl⟩ := materialize_frame h
      exact ⟨core, reports, order, questions, sessions, stops, rfl⟩
  case h_5 =>
    obtain ⟨core, questions, rfl⟩ := applyQuestion_frame h
    exact ⟨core, _, _, questions, _, _, rfl⟩
  case h_10 =>
    obtain ⟨g, -, ⟨-, rfl⟩ | ⟨-, t, core, -, -, rfl⟩⟩ := applyExit_cases h
    · exact ⟨_, _, _, _, _, _, rfl⟩
    · exact ⟨core, _, _, _, _, _, rfl⟩
  case h_11 => cases h
  all_goals
    cases h
    exact ⟨_, _, _, _, _, _, rfl⟩

end Frames

/-! ## Operations -/

section Operations
variable {d : DB} {env : Env} {s s' : State}

theorem submitPlan_writes {p : PlanSpec} {r : SubmitReceipt}
    (h : d.submitPlan env s p = .ok (s', r)) : Writes d s (.submitPlan env p) s' := by
  simp only [DB.submitPlan, bind_ok_iff, require_ok, expect_ok, exists_const, Except.ok.injEq,
    Prod.mk.injEq] at h
  obtain ⟨mode, -, _, -, -, runs, -, launches, hl, core, hcore, rfl, -⟩ := h
  exact .plan hl ⟨rfl, rfl⟩ hcore

/-- An accepted operation on Host launches leaves every other table alone. -/
theorem fleet_writes {op : Op} (hop : op.fleet = true) (h : d.exec s op = .ok s') :
    Writes d s op s' := by
  cases op <;> simp only [Op.fleet, Bool.false_eq_true] at hop <;>
    simp only [DB.exec, committed_ok] at h <;> obtain ⟨r, h⟩ := h
  case beginCoordinatorEpoch =>
    simp only [beginCoordinatorEpoch, bind_ok_iff, require_ok, exists_const, Except.ok.injEq,
      Prod.mk.injEq] at h
    obtain ⟨-, rfl, -⟩ := h
    exact .fleet rfl
  case registerHost =>
    simp only [DB.registerHost, bind_ok_iff, require_ok, expect_ok, exists_const, Except.ok.injEq,
      Prod.mk.injEq] at h
    obtain ⟨-, launch, -, -, run, -, -, _, -, hosts, -, rfl, -⟩ := h
    exact .fleet rfl
  case authorizeHostRebind =>
    simp only [authorizeHostRebind, bind_ok_iff, require_ok, exists_const, Except.ok.injEq,
      Prod.mk.injEq] at h
    obtain ⟨-, rfl, -⟩ := h
    exact .fleet rfl
  case rebindOwner =>
    simp only [DB.rebindOwner, bind_ok_iff, require_ok, expect_ok, exists_const] at h
    obtain ⟨-, run, -, generation, -, -, h⟩ := h
    split at h
    · simp only [bind_ok_iff, require_ok, exists_const, Except.ok.injEq, Prod.mk.injEq] at h
      obtain ⟨-, rfl, -⟩ := h
      exact .same _
    · simp only [bind_ok_iff, require_ok, expect_ok, exists_const, Except.ok.injEq,
        Prod.mk.injEq] at h
      obtain ⟨-, -, rebinds, -, rfl, -⟩ := h
      exact .fleet rfl
  all_goals
    cases h
    exact .fleet rfl

theorem pendingLaunches_writes {hostId : String} {epoch : Nat} {r : List LaunchCommand}
    (h : pendingLaunches s hostId epoch = .ok (s', r)) :
    Writes d s (.pendingLaunches hostId epoch) s' := by
  simp only [pendingLaunches, bind_ok_iff, require_ok, expect_ok, exists_const, Except.ok.injEq,
    Prod.mk.injEq] at h
  obtain ⟨host, -, -, commands, -, rfl, -⟩ := h
  exact .pending

theorem queueResume_writes {taskId : String} {workRevision : Int} {u : Unit}
    (h : queueResume s taskId workRevision = .ok (s', u)) :
    Writes d s (.queueResume taskId workRevision) s' := by
  simp only [queueResume, bind_ok_iff, require_ok, expect_ok, exists_const, Except.ok.injEq,
    Prod.mk.injEq] at h
  obtain ⟨t, ht, ⟨-, hst⟩, hidle, rfl, -⟩ := h
  obtain ⟨hm, rfl⟩ := Table.find?_eq_some.mp ht
  exact .resume hm hst hidle

theorem answerQuestion_writes {spec : AnswerSpec} {r : QuestionStatus}
    (h : d.answerQuestion s spec = .ok (s', r)) : Writes d s (.answerQuestion spec) s' := by
  simp only [DB.answerQuestion, bind_ok_iff, require_ok, expect_ok, exists_const] at h
  obtain ⟨-, q, hq, hqt, t, ht, -, h⟩ := h
  obtain ⟨hm, hid⟩ := Table.find?_eq_some.mp ht
  obtain ⟨hqm, hqid⟩ := Table.find?_eq_some.mp hq
  split at h
  · simp only [bind_ok_iff, require_ok, exists_const, Except.ok.injEq, Prod.mk.injEq] at h
    obtain ⟨-, rfl, -⟩ := h
    exact .same _
  · rename_i hopen
    simp only [DB.queueAnswer, bind_ok_iff, require_ok, exists_const, Except.ok.injEq,
      Prod.mk.injEq] at h
    obtain ⟨hst, hidle, hlast, rfl, -⟩ := h
    rw [← hid] at hidle hlast hqt ⊢
    exact .answer hm hid hst hidle hqm hqid hqt (not_not.mp hopen) hlast

theorem reviewResult_writes {spec : ReviewSpec} {r : String}
    (h : d.reviewResult s spec = .ok (s', r)) : Writes d s (.reviewResult spec) s' := by
  obtain ⟨-, rfl⟩ | ⟨-, t, reviews, e, ht, hid, hst, ⟨-, rfl⟩ | ⟨-, core, hcore, rfl⟩⟩ :=
    reviewResult_cases h
  · exact .same _
  · exact .review ht hid hst (.inl (by rw [hid]))
  · exact .review ht hid hst (.inr ⟨_, hid ▸ hcore⟩)

theorem queueRetry_writes {spec : RetrySpec} {r : RetryReceipt}
    (h : d.queueRetry s spec = .ok (s', r)) : Writes d s (.queueRetry spec) s' := by
  simp only [DB.queueRetry, bind_ok_iff, require_ok, exists_const] at h
  obtain ⟨-, h⟩ := h
  split at h
  · simp only [bind_ok_iff, require_ok, exists_const, Except.ok.injEq, Prod.mk.injEq] at h
    obtain ⟨-, rfl, -⟩ := h
    exact .same _
  · simp only [DB.applyRetry, bind_ok_iff, require_ok, expect_ok, exists_const, Except.ok.injEq,
      Prod.mk.injEq] at h
    obtain ⟨-, t, ht, ⟨hst, -⟩, -, -, -, _, -, payload, -, retries, -, rfl, -⟩ := h
    obtain ⟨hm, hid⟩ := Table.find?_eq_some.mp ht
    rw [← hid]
    exact .retry hm hid hst

/-- An acknowledgement turns deliveries from pending to acked, and nothing else. -/
theorem applyAckDecision_writes {taskId : String} {a : AckDecision}
    (h : d.applyAckDecision taskId s a = .ok s') :
    ∃ decisions events reports,
      s' = { s with
        runtimeDecisions := decisions
        runtimeEvents := events
        reportEvents := reports } ∧
      events.rows.map RuntimeEvent.entry = s.runtimeEvents.rows.map RuntimeEvent.entry ∧
      reports.rows.map ReportEvent.unacked = s.reportEvents.rows.map ReportEvent.unacked := by
  simp only [DB.applyAckDecision, bind_ok_iff, require_ok, expect_ok, exists_const] at h
  obtain ⟨source, -, -, h⟩ := h
  split at h
  · simp only [bind_ok_iff, require_ok, exists_const, Except.ok.injEq] at h
    obtain ⟨-, rfl⟩ := h
    exact ⟨_, _, _, rfl, rfl, rfl⟩
  · simp only [DB.recordDecision, bind_ok_iff, require_ok, expect_ok, exists_const,
      Except.ok.injEq] at h
    obtain ⟨-, _, -, -, decisions, -, rfl⟩ := h
    refine ⟨_, _, _, rfl, ?_, ?_⟩ <;> split
    · rfl
    · exact map_static_update RuntimeEvent.entry fun _ => rfl
    · -- only pending rows are selected
      rw [Table.rows_update, List.map_map]
      refine List.map_congr_left fun r _ => ?_
      simp only [Function.comp_apply, Table.patch]
      split
      · rename_i hsel
        simp only [Bool.and_eq_true, decide_eq_true_eq] at hsel
        simp [ReportEvent.unacked, hsel.2]
      · rfl
    · rfl

theorem applyAckDecisions_writes {taskId : String} {as : List AckDecision}
    (h : as.foldlM (d.applyAckDecision taskId) s = .ok s') :
    ∃ decisions events reports,
      s' = { s with
        runtimeDecisions := decisions
        runtimeEvents := events
        reportEvents := reports } ∧
      events.rows.map RuntimeEvent.entry = s.runtimeEvents.rows.map RuntimeEvent.entry ∧
      reports.rows.map ReportEvent.unacked = s.reportEvents.rows.map ReportEvent.unacked := by
  induction as generalizing s with
  | nil => cases h; exact ⟨_, _, _, rfl, rfl, rfl⟩
  | cons a as ih =>
    rw [List.foldlM_cons, bind_ok_iff] at h
    obtain ⟨s₁, h₁, h₂⟩ := h
    obtain ⟨_, _, _, rfl, he₁, hr₁⟩ := applyAckDecision_writes h₁
    obtain ⟨_, _, _, rfl, he₂, hr₂⟩ := ih h₂
    exact ⟨_, _, _, rfl, he₂.trans he₁, hr₂.trans hr₁⟩

theorem ackDecisions_writes {taskId deliveryId proof : String} {as : List AckDecision} {u : Unit}
    (h : d.ackDecisions s taskId deliveryId proof as = .ok (s', u)) :
    Writes d s (.ackDecisions taskId deliveryId proof as) s' := by
  simp only [DB.ackDecisions, bind_ok_iff, require_ok, exists_const] at h
  obtain ⟨-, -, h⟩ := h
  split at h
  · simp only [bind_ok_iff, require_ok, exists_const, Except.ok.injEq, Prod.mk.injEq] at h
    obtain ⟨-, rfl, -⟩ := h
    exact .same _
  · simp only [bind_ok_iff, expect_ok, Except.ok.injEq, Prod.mk.injEq] at h
    obtain ⟨s₁, h₁, receipts, -, rfl, -⟩ := h
    obtain ⟨_, _, _, rfl, he, hr⟩ := applyAckDecisions_writes h₁
    exact .ack he hr

theorem requestStop_writes {taskId reason : String} {workRevision : Int} {r : StopDispatch}
    (h : requestStop env s taskId workRevision reason = .ok (s', r)) :
    Writes d s (.requestStop env taskId workRevision reason) s' := by
  obtain ⟨t, ht, rfl, -, -, ⟨hc, rfl⟩ | ⟨-, g, hg, ⟨-, rfl⟩ | ⟨hfree, stops, hi, rfl⟩⟩⟩ :=
    requestStop_cases h
  · exact .cancel ht hc
  · exact .same _
  · obtain ⟨hgm, hgt, hga⟩ := mem_of_activeSegment hg
    rw [← hgt]
    exact .stop hgm hga hfree hi

theorem registerReportCapability_writes {info : Option FileInfo} {r : ReportCapabilityRegistration}
    {ack : DurableAck} (h : d.registerReportCapability s info r = .ok (s', ack)) :
    Writes d s (.registerReportCapability info r) s' := by
  simp only [DB.registerReportCapability, bind_ok_iff, require_ok, expect_ok, exists_const,
    Except.ok.injEq, Prod.mk.injEq] at h
  obtain ⟨-, _, -, -, c, -, host, -, -, -, -, rfl, -⟩ := h
  exact .register fun _ => rfl

theorem commitReportEvent_writes {probe : ArtifactProbe} {spec : ReportEventSpec} {ack : DurableAck}
    (h : d.commitReportEvent env probe s spec = .ok (s', ack)) :
    Writes d s (.commitReportEvent env probe spec) s' := by
  simp only [DB.commitReportEvent, bind_ok_iff, require_ok, expect_ok, exists_const] at h
  obtain ⟨-, kind, hkind, c, hc, host, -, -, payload, -, h⟩ := h
  obtain ⟨hcm, hcid⟩ := Table.find?_eq_some.mp hc
  split at h
  · simp only [DB.repeatReport, bind_ok_iff, require_ok, exists_const, Except.ok.injEq,
      Prod.mk.injEq] at h
    obtain ⟨-, _, -, -, rfl, -⟩ := h
    exact .same _
  · simp only [DB.commitNewReport, bind_ok_iff, require_ok, exists_const, Except.ok.injEq,
      Prod.mk.injEq] at h
    obtain ⟨-, e₀, hvalid, _, -, -, hopen, s₁, h₁, s₂, h₂, rfl, -⟩ := h
    exact .report hcm hcid hkind (validateReportPayload_decoded hvalid) hopen h₁ h₂

theorem commitHostEvent_writes {e : Event} {ack : DurableAck}
    (h : d.commitHostEvent env s e = .ok (s', ack)) : Writes d s (.commitHostEvent env e) s' := by
  simp only [DB.commitHostEvent, bind_ok_iff, require_ok, expect_ok, exists_const] at h
  obtain ⟨hwf, host, -, -, h⟩ := h
  split at h
  · simp only [bind_ok_iff, require_ok, exists_const, Except.ok.injEq, Prod.mk.injEq] at h
    rw [← h.2.1]
    exact .same _
  · simp only [DB.commitNew, bind_ok_iff, require_ok, expect_ok, exists_const, Except.ok.injEq,
      Prod.mk.injEq] at h
    obtain ⟨hnext, incoming, -, _, -, g, hg, hbound, s₁, h₁, s₂, h₂, rfl, -⟩ := h
    obtain ⟨hm, hid⟩ := Table.find?_eq_some.mp hg
    exact .event hwf hnext hm hid hbound h₁ h₂

end Operations

/-- Every accepted operation writes as listed. -/
theorem exec_writes {d : DB} {s s' : State} {op : Op} (h : d.exec s op = .ok s') :
    Writes d s op s' := by
  by_cases hop : op.fleet = true
  · exact fleet_writes hop h
  · cases op <;> simp only [Op.fleet, not_true, Bool.false_eq_true, not_false_eq_true] at hop <;>
      simp only [DB.exec, committed_ok] at h <;> obtain ⟨r, h⟩ := h
    case submitPlan => exact submitPlan_writes h
    case claimReady =>
      obtain ⟨t, place, hc⟩ := claimReady_iff.mp h
      exact .claim hc
    case pendingLaunches => exact pendingLaunches_writes h
    case commitHostEvent => exact commitHostEvent_writes h
    case registerReportCapability => exact registerReportCapability_writes h
    case commitReportEvent => exact commitReportEvent_writes h
    case queueResume => exact queueResume_writes h
    case answerQuestion => exact answerQuestion_writes h
    case reviewResult => exact reviewResult_writes h
    case queueRetry => exact queueRetry_writes h
    case ackDecisions => exact ackDecisions_writes h
    case requestStop => exact requestStop_writes h
    case markStoppingUnknown => cases h; exact .sweep

/-! ## The event log -/

/-- What is appended is the event's row. -/
theorem appendEvent_rows {d : DB} {s s' : State} {e : Event} (h : d.appendEvent s e = .ok s') :
    s'.runtimeEvents.rows = s.runtimeEvents.rows ++ [d.runtimeEventRow e] := by
  simp only [DB.appendEvent, bind_ok_iff, expect_ok, Except.ok.injEq] at h
  obtain ⟨events, hi, order, -, rfl⟩ := h
  exact Table.rows_insert hi

/-- Only a committed event enters the log; the entries there stay as they are. -/
theorem Writes.log {d : DB} {s s' : State} {op : Op} (h : Writes d s op s') :
    s'.runtimeEvents.rows.map RuntimeEvent.entry = s.runtimeEvents.rows.map RuntimeEvent.entry ∨
      ∃ e, op.event = some e ∧ wellFormed e ∧ e.sequence = s.lastSequence e.producerId + 1 ∧
        s'.runtimeEvents.rows = s.runtimeEvents.rows ++ [d.runtimeEventRow e] := by
  cases h with
  | ack he hr => exact .inl he
  | claim h =>
    obtain ⟨c₁, c₂, caps, -, -, -, rfl, -⟩ := launch_cases h.launched
    exact .inl rfl
  | report _ _ _ _ _ h₁ h₂ =>
    obtain ⟨row, events, order, usage, -, -, -, rfl⟩ := appendReport_frame h₁
    obtain ⟨core, questions, stops, rfl⟩ := askReported_frame h₂
    exact .inl rfl
  | event hwf hnext _ _ _ h₁ h₂ =>
    have hrows := appendEvent_rows h₁
    obtain ⟨core, reports, order, questions, sessions, stops, rfl⟩ := applyEvent_frame h₂
    exact .inr ⟨_, rfl, hwf, hnext, hrows⟩
  | _ => exact .inl rfl

end Orchestrator.Store
