import Orchestrator.Invariants.Reported
import Orchestrator.Events.Rounds
import Orchestrator.Store.Queries

/-!
# Reports held back

A worker's question waits for the session of its segment. Only a session event
of the Host lets it go, and a segment that has exited sends none: a question
still waiting at the exit, or reported after it, waits for ever.
-/
namespace Orchestrator.Store
open Library

/-- A question of the segment waits for its session. -/
def State.HoldsReport (s : State) (segmentId : String) : Prop :=
  ∃ r ∈ s.reportEvents.rows, r.deliveryStatus = .pendingSession ∧
    s.reportSegment r = some segmentId

instance (s : State) (segmentId : String) : Decidable (s.HoldsReport segmentId) :=
  inferInstanceAs (Decidable (∃ r ∈ s.reportEvents.rows, _))

/-- The segment whose question a report would leave waiting. -/
def State.heldSegment (s : State) : Op → Option String
  | .commitReportEvent _ _ spec => do
    let c ← s.reportCapabilities.find? spec.capabilityId
    if spec.kind = "question" ∧
        ((s.sessions.find? c.segmentId).map SegmentSession.sessionId).getD "" = "" ∧
        ∀ r ∈ s.reportEvents.rows,
          ¬ (r.capabilityId = spec.capabilityId ∧ r.sequence = spec.sequence) then
      some c.segmentId
    else none
  | _ => none

/-- When it is accepted, the operation strands no report: it does not exit a
segment with a question waiting, and leaves none waiting for an exited segment. -/
def DB.Releases (d : DB) (s : State) (op : Op) : Prop :=
  (d.exec s op).isOk = true →
    (∀ e ∈ op.event, e.kind = .exited → ¬ s.Committed e → ¬ s.HoldsReport e.segmentId) ∧
    ∀ id ∈ s.heldSegment op, ∃ g ∈ s.segments.rows, g.id = id ∧ g.active = true

instance (d : DB) (s : State) (op : Op) : Decidable (d.Releases s op) :=
  inferInstanceAs (Decidable (_ → _ ∧ _))

/-- Every question that waits for a session belongs to a segment that may still send it. -/
def State.NoStranded (s : State) : Prop :=
  ∀ r ∈ s.reportEvents, r.deliveryStatus = .pendingSession →
    ∃ g ∈ s.segments, g.active = true ∧ s.reportSegment r = some g.id

section Held
variable {d : DB} {limits : ConcurrencyLimits} {s s' : State} {op : Op} {g : Segment}

/-- An exited segment then holds no report back. -/
theorem State.NoStranded.exited (h : s.NoStranded) (hg : g ∈ s.segments)
    (hx : g.status = .exited) : ¬ s.HoldsReport g.id := by
  rintro ⟨r, hr, hst, hseg⟩
  obtain ⟨k, hk, ha, hkseg⟩ := h r hr hst
  have hid : k.id = g.id := by
    rw [hseg] at hkseg
    exact (Option.some.inj hkseg).symm
  obtain rfl : k = g := Table.eq_of_key hk hg hid
  exact Segment.active_iff.mp ha hx

/-- A task without an active segment is then kept from asking by its open questions only. -/
theorem State.NoStranded.openQuestions (h : s.NoStranded) (hb : Bound s) {taskId : String}
    (hidle : s.taskActive taskId = 0) : s.openQuestions taskId =
      s.questions.count (fun q => q.taskId = taskId && q.status ≠ .resolved) := by
  suffices hzero : s.reportEvents.count (fun r => r.kind = .question &&
      r.deliveryStatus = .pendingSession && (s.reportCapabilities.find? r.capabilityId).any
        (fun c => c.taskId = taskId)) = 0 by
    rw [State.openQuestions, hzero, Nat.add_zero]
  rw [Table.count_eq_zero]
  intro r hr
  by_contra hsel
  simp only [Bool.not_eq_false, Bool.and_eq_true, decide_eq_true_eq, Option.any_eq_true] at hsel
  obtain ⟨⟨-, hst⟩, c, hc, htask⟩ := hsel
  obtain ⟨g, hg, ha, hseg⟩ := h r hr hst
  obtain ⟨hcm, -⟩ := Table.find?_eq_some.mp hc
  obtain ⟨k, hk, hkid, hkt, -⟩ := hb.capabilities c hcm
  rw [State.reportSegment, hc, Option.map_some, Option.some.injEq] at hseg
  obtain rfl : k = g := Table.eq_of_key hk hg (hkid.trans hseg)
  have hcount := Table.count_eq_zero.mp hidle k hg
  simp [hkt, htask, ha] at hcount

/-- No report then outlives the last active segment, to keep Host or coordinator alive. -/
theorem State.NoStranded.idle (h : s.NoStranded) (hidle : s.activeCount = 0) :
    s.reportEvents.count (fun r => r.deliveryStatus = .pendingSession) = 0 := by
  rw [Table.count_eq_zero]
  intro r hr
  by_contra hsel
  obtain ⟨g, hg, ha, -⟩ := h r hr (by simpa using hsel)
  have hcount := Table.count_eq_zero.mp hidle g hg
  rw [ha] at hcount
  cases hcount

theorem State.NoStranded.fresh (limits : ConcurrencyLimits) : (State.fresh limits).NoStranded :=
  fun _ h => absurd h (Table.not_mem_empty _)

theorem parseReportKind_question {text : String} (h : parseReportKind text = some .question) :
    text = "question" := by
  unfold parseReportKind at h
  split at h <;> first | rfl | cases h

theorem State.NoStranded.step (h : s.NoStranded) (hb : Bound s) (hc : d.Releases s op) :
    (d.step s op).NoStranded := by
  refine step_induct h fun s' hx => ?_
  obtain ⟨hexit, hheld⟩ := hc (by rw [hx]; rfl)
  have hw := exec_writes hx
  have hstep := (exec_effect hb hx).step
  -- what is active stays so, unless the operation exits it
  have hkeep : ∀ {r r' : ReportEvent}, r'.capabilityId = r.capabilityId →
      (∃ g ∈ s.segments, g.active = true ∧ s.reportSegment r = some g.id) →
      (∀ e g, Exits op e g → s.reportSegment r = some g.id →
        ∃ g' ∈ s'.segments, g'.active = true ∧ s'.reportSegment r' = some g'.id) →
      ∃ g' ∈ s'.segments, g'.active = true ∧ s'.reportSegment r' = some g'.id := by
    rintro r r' hcap ⟨g, hg, ha, hseg⟩ hexits
    obtain ⟨g', hg', hst, ha'⟩ | ⟨e, he⟩ := hstep.active hg ha
    · exact ⟨g', hg', ha', by rw [Segment.static_id hst]; exact hw.reportSegment hcap hseg⟩
    · exact hexits e g he hseg
  intro r' hr' hst'
  obtain ⟨r, hr, heq | ⟨_, _, rfl⟩⟩ | ⟨env, probe, spec, c, kind, payload, hash, e, rfl, hcm, hcid,
    hkind, -, hnew, rfl⟩ := hw.reports hr'
  · have hst : r.deliveryStatus = .pendingSession := (unacked_pendingSession heq).mp hst'
    have hcap : r'.capabilityId = r.capabilityId := (congrArg ReportEvent.capabilityId heq :)
    refine hkeep hcap (h r hr hst) fun e g he hseg => ?_
    by_cases hused : s.Committed e
    · -- the exit was committed before, so nothing changes
      obtain ⟨hev, -, -⟩ := he
      cases op <;> simp only [Op.event, reduceCtorEq, Option.some.injEq] at hev
      subst hev
      obtain ⟨ack, hx⟩ := committed_ok.mp hx
      obtain ⟨-, rfl⟩ | ⟨hn, -⟩ := commitHostEvent_cases hx
      · exact h r' hr' hst'
      · obtain ⟨q, hq, hslot⟩ := hused
        exact absurd hslot (hn q hq)
    · obtain ⟨hev, hk, hs, -, -⟩ := he
      exact absurd ⟨r, hr, hst, hs ▸ hseg⟩ (hexit e hev hk hused)
  · cases hst'
  · obtain ⟨rfl, hsession⟩ := reportDelivery_pendingSession hst'
    have hid : c.segmentId ∈ s.heldSegment (.commitReportEvent env probe spec) := by
      have hfind : s.reportCapabilities.find? spec.capabilityId = some c :=
        Table.find?_eq_some.mpr ⟨hcm, hcid⟩
      simp only [State.heldSegment, hfind, Option.bind_eq_bind, Option.bind_some,
        Option.mem_def]
      exact if_pos ⟨parseReportKind_question hkind, hsession, hnew⟩
    obtain ⟨g, hg, hgid, ha⟩ := hheld _ hid
    refine hkeep rfl ⟨g, hg, ha, ?_⟩ fun e g he _ => ?_
    · have hfind : s.reportCapabilities.find? spec.capabilityId = some c :=
        Table.find?_eq_some.mpr ⟨hcm, hcid⟩
      change (s.reportCapabilities.find? spec.capabilityId).map ReportCapability.segmentId = _
      rw [hfind, Option.map_some, hgid]
    · cases he.1

end Held

/-- A run that releases its reports strands none: none is held for a segment that has exited, none
keeps an idle task from asking, and none keeps Hosts or the coordinator without active segments
alive. -/
theorem no_stranded_report (d : DB) (limits : ConcurrencyLimits) (ops : List Op)
    (h : AllSteps d.step d.Releases (State.fresh limits) ops) :
    let s := d.run (State.fresh limits) ops
    s.NoStranded ∧
    (∀ g ∈ s.segments, g.status = .exited → ¬ s.HoldsReport g.id) ∧
    (∀ taskId, s.taskActive taskId = 0 → s.openQuestions taskId =
      s.questions.count (fun q => q.taskId = taskId && q.status ≠ .resolved)) ∧
    (s.activeCount = 0 →
      s.reportEvents.count (fun r => r.deliveryStatus = .pendingSession) = 0) := by
  intro s
  have hboth : Bound s ∧ s.NoStranded := by
    refine run_invariant_when (I := fun s => Bound s ∧ s.NoStranded)
      ⟨bound_fresh limits, .fresh limits⟩ (fun s op hi hc => ⟨?_, hi.2.step hi.1 hc⟩) h
    exact step_induct hi.1 fun s' hx => (exec_effect hi.1 hx).bound
  exact ⟨hboth.2, fun _ hg hx => hboth.2.exited hg hx,
    fun _ hidle => hboth.2.openQuestions hboth.1 hidle, hboth.2.idle⟩

/-! ## Reports of the small deployment -/

/-- The Host registers the capability of claim `n`. -/
def toyRegister (taskId : String) (n : Nat) : Op :=
  .registerReportCapability (some { isDir := true, perm := 0o700, ownedByUser := true })
    { capabilityId := "report-capability-" ++ toString n
      tokenHash := toyDigest "token"
      capabilityDir := "/cap"
      runId := "run"
      taskId := taskId
      attemptId := "attempt-" ++ toString n
      segmentId := "segment-" ++ toString n
      producerId := "host"
      workRevision := 1
      executionEpoch := 1 }

/-- The worker of claim `n` asks; its question is named by the payload. -/
def toyAsk (n : Nat) (questionId : String) : Op :=
  .commitReportEvent (toyEnv 30)
    { canonical := some ("/cap/" ++ questionId)
      canonicalRoot := some "/cap"
      opened := true
      info := some { isRegular := true, perm := 0o600, ownedByUser := true, size := 1 }
      copied := some 1
      unchangedAfter := true
      sha256 := toyDigest questionId }
    { capabilityId := "report-capability-" ++ toString n
      token := "token"
      eventId := "report-" ++ toString n
      sequence := 1
      kind := "question"
      payload := questionId }

/-- The worker of `a` runs and has asked, before its session is known. -/
def askedOps : List Op :=
  toyStart [toyTask "a" 2 []] ++ [toyClaim 11, toyCommit "a" 11 1 .prepared,
    toyCommit "a" 11 2 .spawned, toyCommit "a" 11 3 .running, toyRegister "a" 11, toyAsk 11 "q"]

/-- The session arrives before the exit: nothing is stranded. -/
theorem session_releases_report : (toyDB.run (State.fresh {})
    (askedOps ++ [toyCommit "a" 11 4 .session, toyCommit "a" 11 5 .exited])).NoStranded := by
  have h : AllSteps toyDB.step toyDB.Releases (State.fresh {})
      (askedOps ++ [toyCommit "a" 11 4 .session, toyCommit "a" 11 5 .exited]) := by decide +kernel
  exact (no_stranded_report toyDB {} _ h).1

/-- The worker exits without a session: its question keeps waiting, and the task
may not ask again. -/
theorem exit_strands_report :
    ¬ (toyDB.run (State.fresh {}) (askedOps ++ [toyCommit "a" 11 4 .exited])).NoStranded ∧
      (toyDB.run (State.fresh {}) (askedOps ++ [toyCommit "a" 11 4 .exited])).openQuestions "a" = 1
        := by
  have hfacts : (∃ r ∈ (toyDB.run (State.fresh {})
        (askedOps ++ [toyCommit "a" 11 4 .exited])).reportEvents.rows,
        r.deliveryStatus = .pendingSession) ∧
      (∀ g ∈ (toyDB.run (State.fresh {})
        (askedOps ++ [toyCommit "a" 11 4 .exited])).segments.rows, g.active = false) ∧
      (toyDB.run (State.fresh {}) (askedOps ++ [toyCommit "a" 11 4 .exited])).openQuestions "a" =
        1 := by decide +kernel
  obtain ⟨⟨r, hrm, hst⟩, hx, hopen⟩ := hfacts
  refine ⟨fun h => ?_, hopen⟩
  obtain ⟨g, hg, ha, -⟩ := h r (Table.mem_def.mpr hrm) hst
  rw [hx g (Table.mem_def.mp hg)] at ha
  cases ha

end Orchestrator.Store
