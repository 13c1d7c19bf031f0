import Orchestrator.Invariants.Inquiry

/-!
# The effects of operations

The remaining operations, and `exec_effect`: in a bound state every accepted
operation has its `Effect`.
-/
namespace Orchestrator.Store
open Library

section Operations
variable {d : DB} {op : Op} {env : Env} {s s' : State}

/-- An operation that writes no row `Effect` speaks about. -/
theorem idle_effect (hop : op.event = none) (hb : Bound s) (hcore : s'.toCore = s.toCore)
    (hs : Settled s s') (hu : Unasked s s') : Effect d op none s s' :=
  ⟨.move (hcore ▸ .idle d _ _), hb.keep (hcore ▸ .refl _) hs,
    .spare (spares_of_event hop) (.keep hu.questions), hu.committed⟩

theorem move_effect {x : Option String} (hop : op.event = none) (hb : Bound s)
    (hm : Move d op x s.toCore s'.toCore) (hs : Settled s s') (hu : Unasked s s') :
    Effect d op x s s' :=
  ⟨.move hm, hb.keep hm.kept hs, .spare (spares_of_event hop) (.keep hu.questions), hu.committed⟩

theorem launchIds_update {p : HostLaunch → Bool} {f : HostLaunch → HostLaunch}
    {h : ∀ l, (f l).id = l.id} :
    s.hostLaunches.rows.map HostLaunch.id <+:
      (s.hostLaunches.update p f h).rows.map HostLaunch.id :=
  map_static_update HostLaunch.id h ▸ List.prefix_rfl

theorem setLaunchStatus_ids (hostId : String) (status : LaunchStatus) :
    s.hostLaunches.rows.map HostLaunch.id <+:
      (setLaunchStatus s.hostLaunches hostId status).rows.map HostLaunch.id :=
  launchIds_update (h := by simp)

/-! ## Admission -/

theorem submitPlan_effect {p : PlanSpec} {r : SubmitReceipt} (hb : Bound s)
    (h : d.submitPlan env s p = .ok (s', r)) : Effect d (.submitPlan env p) none s s' := by
  simp only [DB.submitPlan, bind_ok_iff, require_ok, expect_ok, exists_const, Except.ok.injEq,
    Prod.mk.injEq] at h
  obtain ⟨mode, -, _, hvalid, -, runs, -, launches, hl, core, hcore, rfl, -⟩ := h
  generalize hid : (if p.launchId = "" then env.newId "host-launch" else p.launchId) = launchId
    at hl hcore
  have hfresh : ∀ t ∈ s.tasks, t.hostLaunchId ≠ launchId := by
    intro t ht heq
    obtain ⟨l, hlm, hlid⟩ := hb.launches t ht
    exact (Table.insert?_eq_some.mp hl).1 l hlm (hlid.trans heq)
  have hsub : Submitted d s.toCore core := ⟨p, launchId, env.now.stamp, hvalid, hfresh, hcore⟩
  have hi := insertTasks_inserted hcore
  refine ⟨.submit hsub rfl ⟨_, _, rfl⟩, ⟨?_, fun c hc => ?_, hb.reports⟩,
    .spare (spares_of_event rfl) (.keep rfl), fun _ h => h⟩
  · intro t ht
    obtain ⟨new, hrows, hrow, -⟩ := hi.rows
    rw [Table.mem_def, hrows, List.mem_append] at ht
    rcases ht with ht | ht
    · obtain ⟨l, hlm, hlid⟩ := hb.launches t ht
      exact ⟨l, (Table.mem_insert hl).mpr (.inl hlm), hlid⟩
    · obtain ⟨spec, -, hspec⟩ := forall₂_right hrow ht
      have : t.hostLaunchId = launchId := by
        rcases hspec with ⟨-, n, -, -, rfl⟩ | ⟨-, rfl⟩ <;> rfl
      exact ⟨_, (Table.mem_insert hl).mpr (.inr rfl), this.symm⟩
  · have : core.segments = s.segments := hi.segments
    change ∃ g ∈ core.segments, _
    rw [this]
    exact hb.capabilities c hc

theorem beginCoordinatorEpoch_effect {epoch : Nat} {u : Unit} (hb : Bound s)
    (h : beginCoordinatorEpoch s epoch = .ok (s', u)) :
    Effect d (.beginCoordinatorEpoch epoch) none s s' := by
  simp only [beginCoordinatorEpoch, bind_ok_iff, require_ok, exists_const, Except.ok.injEq,
    Prod.mk.injEq] at h
  obtain ⟨-, rfl, -⟩ := h
  exact idle_effect rfl hb rfl ⟨launchIds_update (h := by simp), rfl, rfl⟩ ⟨rfl, rfl⟩

theorem registerHost_effect {hello : HostHello} {epoch : Nat} {r : String} (hb : Bound s)
    (h : d.registerHost s hello epoch = .ok (s', r)) :
    Effect d (.registerHost hello epoch) none s s' := by
  simp only [DB.registerHost, bind_ok_iff, require_ok, expect_ok, exists_const, Except.ok.injEq,
    Prod.mk.injEq] at h
  obtain ⟨-, launch, -, -, run, -, -, _, -, hosts, -, rfl, -⟩ := h
  exact idle_effect rfl hb rfl ⟨launchIds_update (h := by simp), rfl, rfl⟩ ⟨rfl, rfl⟩

theorem authorizeHostRebind_effect {launchId birth : String} {pid : Int} {u : Unit} (hb : Bound s)
    (h : authorizeHostRebind s launchId pid birth = .ok (s', u)) :
    Effect d (.authorizeHostRebind launchId pid birth) none s s' := by
  simp only [authorizeHostRebind, bind_ok_iff, require_ok, exists_const, Except.ok.injEq,
    Prod.mk.injEq] at h
  obtain ⟨-, rfl, -⟩ := h
  exact idle_effect rfl hb rfl ⟨List.prefix_rfl, rfl, rfl⟩ ⟨rfl, rfl⟩

theorem beginHostReconcile_effect {hostId : String} {u : Unit} (hb : Bound s)
    (h : beginHostReconcile s hostId = .ok (s', u)) :
    Effect d (.beginHostReconcile hostId) none s s' := by
  cases h
  exact idle_effect rfl hb rfl ⟨setLaunchStatus_ids _ _, rfl, rfl⟩ ⟨rfl, rfl⟩

theorem finishHostReconcile_effect {hostId : String} {u : Unit} (hb : Bound s)
    (h : finishHostReconcile s hostId = .ok (s', u)) :
    Effect d (.finishHostReconcile hostId) none s s' := by
  cases h
  exact idle_effect rfl hb rfl ⟨setLaunchStatus_ids _ _, rfl, rfl⟩ ⟨rfl, rfl⟩

theorem markHostOffline_effect {hostId : String} {epoch : Nat} {u : Unit} (hb : Bound s)
    (h : markHostOffline s hostId epoch = .ok (s', u)) :
    Effect d (.markHostOffline hostId epoch) none s s' := by
  cases h
  refine idle_effect rfl hb rfl ⟨?_, rfl, rfl⟩ ⟨rfl, rfl⟩
  simp only
  split
  · exact setLaunchStatus_ids _ _
  · exact List.prefix_rfl

theorem retireHost_effect {hostId : String} {u : Unit} (hb : Bound s)
    (h : retireHost s hostId = .ok (s', u)) : Effect d (.retireHost hostId) none s s' := by
  cases h
  exact idle_effect rfl hb rfl ⟨setLaunchStatus_ids _ _, rfl, rfl⟩ ⟨rfl, rfl⟩

theorem rebindOwner_effect {spec : RebindOwnerSpec} {u : Unit} (hb : Bound s)
    (h : d.rebindOwner s spec = .ok (s', u)) : Effect d (.rebindOwner spec) none s s' := by
  simp only [DB.rebindOwner, bind_ok_iff, require_ok, expect_ok, exists_const] at h
  obtain ⟨-, run, -, generation, -, -, h⟩ := h
  split at h
  · simp only [bind_ok_iff, require_ok, exists_const, Except.ok.injEq, Prod.mk.injEq] at h
    obtain ⟨-, rfl, -⟩ := h
    exact idle_effect rfl hb rfl (.refl _) (.refl _)
  · simp only [bind_ok_iff, require_ok, expect_ok, exists_const, Except.ok.injEq,
      Prod.mk.injEq] at h
    obtain ⟨-, -, rebinds, -, rfl, -⟩ := h
    exact idle_effect rfl hb rfl ⟨launchIds_update (h := by simp), rfl, rfl⟩ ⟨rfl, rfl⟩

/-! ## Scheduling -/

/-- The checks a claim passed and the rows it wrote. -/
structure Claimed (d : DB) (env : Env) (s : State) (hostId : String) (epoch : Nat) (slots : Int)
    (t : Task) (place : Placement) (s' : State) (cmd : LaunchCommand) : Prop where
  host : ∃ h, s.hosts.find? hostId = some h ∧ h.status = .ready ∧ h.coordinatorEpoch = epoch ∧
    selectReady d.toPlatform s.toCore h.launchId = some t
  free : (s.activeCount : Int) < slotBound s.limits slots
  admitted : d.storageAdmission s env.disk t.runId 0 false = .ok ()
  placed : s.toCore.place env t = .ok place
  granted : 0 < s.toCore.grant t
  launched : d.launch env s hostId epoch t place (s.toCore.grant t) = .ok (s', cmd)

theorem claimReady_iff {hostId : String} {epoch : Nat} {slots : Int} {cmd : LaunchCommand} :
    d.claimReady env s hostId epoch slots = .ok (s', cmd) ↔
      ∃ t place, Claimed d env s hostId epoch slots t place s' cmd := by
  simp only [DB.claimReady, bind_ok_iff, require_ok, expect_ok, exists_const]
  constructor
  · rintro ⟨h, hh, ⟨hr, he⟩, hslots, t, hsel, _, hadm, place, hplace, hg, hl⟩
    exact ⟨t, place, ⟨h, hh, hr, he, hsel⟩, hslots, hadm, hplace, hg, hl⟩
  · rintro ⟨t, place, ⟨h, hh, hr, he, hsel⟩, hslots, hadm, hplace, hg, hl⟩
    exact ⟨h, hh, ⟨hr, he⟩, hslots, t, hsel, (), hadm, place, hplace, hg, hl⟩

/-- The rows behind `DB.launch`. -/
theorem launch_cases {hostId : String} {epoch : Nat} {t : Task} {place : Placement} {grant : Int}
    {cmd : LaunchCommand} (h : d.launch env s hostId epoch t place grant = .ok (s', cmd)) :
    ∃ c₁ c₂ capabilities, s.toCore.startAttempt t place = .ok c₁ ∧
      c₁.startSegment (d.claimedSegment env hostId epoch t place grant) = .ok c₂ ∧
      s.reportCapabilities.insert? (claimedCapability env hostId epoch t
        (d.claimedSegment env hostId epoch t place grant)) = some capabilities ∧
      s' = { s with
        toCore := c₂.setTaskStatus t.id .running
        reportCapabilities := capabilities
        questions := startResume s.questions (s.resumedQuestion t place) } ∧
      cmd = launchCommand t (d.claimedSegment env hostId epoch t place grant)
        (env.newId "report-capability") (s.resumedQuestion t place) := by
  simp only [DB.launch, bind_ok_iff, require_ok, expect_ok, exists_const, Except.ok.injEq,
    Prod.mk.injEq] at h
  obtain ⟨c₁, h₁, c₂, h₂, -, capabilities, hc, rfl, rfl⟩ := h
  exact ⟨c₁, c₂, capabilities, h₁, h₂, hc, rfl, rfl⟩

theorem selectReady_spec {p : Platform} {c : Core} {launchId : String} {t : Task}
    (h : selectReady p c launchId = some t) : t ∈ c.tasks ∧ t.hostLaunchId = launchId ∧
      t.status.claimable = true ∧ c.hasCapacity p t = true := by
  have hm := List.mem_of_find?_eq_some h
  have hc := List.find?_some h
  simp only [Core.candidates, List.mem_insertionSort, List.mem_filter, Bool.and_eq_true,
    decide_eq_true_eq] at hm
  exact ⟨hm.1, hm.2.1, hm.2.2, hc⟩

theorem startAttempt_frame {c c' : Core} {t : Task} {place : Placement}
    (h : c.startAttempt t place = .ok c') : c'.limits = c.limits ∧
      c'.nextReadySequence = c.nextReadySequence ∧ c'.tasks = c.tasks ∧
      c'.segments = c.segments := by
  unfold Core.startAttempt at h
  split at h
  · cases h; exact ⟨rfl, rfl, rfl, rfl⟩
  · simp only [bind_ok_iff, require_ok, expect_ok, exists_const, Except.ok.injEq] at h
    obtain ⟨-, attempts, -, rfl⟩ := h
    exact ⟨rfl, rfl, rfl, rfl⟩

theorem startSegment_cases {c c' : Core} {g : Segment} (h : c.startSegment g = .ok c') :
    ∃ segments, c.segments.insert? g = some segments ∧ c' = { c with segments := segments } := by
  simp only [Core.startSegment, bind_ok_iff, require_ok, expect_ok, exists_const,
    Except.ok.injEq] at h
  obtain ⟨-, segments, hi, rfl⟩ := h
  exact ⟨segments, hi, rfl⟩

theorem claimReady_effect {hostId : String} {epoch : Nat} {slots : Int} {cmd : LaunchCommand}
    (hb : Bound s) (h : d.claimReady env s hostId epoch slots = .ok (s', cmd)) :
    Effect d (.claimReady env hostId epoch slots) none s s' := by
  obtain ⟨t, place, ⟨host, -, -, -, hsel⟩, hslots, -, hplace, hgrant, hlaunch⟩ :=
    claimReady_iff.mp h
  obtain ⟨c₁, c₂, capabilities, h₁, h₂, hc, rfl, -⟩ := launch_cases hlaunch
  have hm : Move d (.claimReady env hostId epoch slots) none s.toCore
      (c₂.setTaskStatus t.id .running) :=
    .claim rfl hslots hsel hplace hgrant h₁ h₂
  obtain ⟨segments, hi, rfl⟩ := startSegment_cases h₂
  have hnew := (Table.mem_insert hi).mpr (.inr rfl)
  obtain ⟨ht, -, hclaimable, -⟩ := selectReady_spec hsel
  refine ⟨.move hm, ⟨hb.launch_of hm.kept List.prefix_rfl, fun c hcm => ?_, fun r hr => ?_⟩,
    .spare (spares_of_event rfl) (.start ht hclaimable hnew rfl rfl rfl rfl), fun _ h => h⟩
  · rcases (Table.mem_insert hc).mp hcm with hcm | rfl
    · obtain ⟨g, hg, h1, h2, h3⟩ := hb.capabilities c hcm
      obtain ⟨g', hg', hst⟩ := hm.kept.segment hg
      exact ⟨g', hg', by rw [Segment.static_id hst, h1], by rw [Segment.static_taskId hst, h2],
        by rw [Segment.static_attemptId hst, h3]⟩
    · exact ⟨_, hnew, rfl, rfl, rfl⟩
  · obtain ⟨c, hcm, h0⟩ := hb.reports r hr
    exact ⟨c, (Table.mem_insert hc).mpr (.inl hcm), h0⟩

theorem pendingLaunches_effect {hostId : String} {epoch : Nat} {r : List LaunchCommand}
    (hb : Bound s) (h : pendingLaunches s hostId epoch = .ok (s', r)) :
    Effect d (.pendingLaunches hostId epoch) none s s' := by
  simp only [pendingLaunches, bind_ok_iff, require_ok, expect_ok, exists_const, Except.ok.injEq,
    Prod.mk.injEq] at h
  obtain ⟨host, -, -, commands, -, rfl, -⟩ := h
  refine move_effect rfl hb (.quiet ?_) ⟨List.prefix_rfl, rfl, rfl⟩ ⟨rfl, rfl⟩
  exact Quiet.updateSegments fun g _ _ => ⟨rfl, rfl, rfl⟩

/-! ## Decisions -/

theorem queueResume_effect {taskId : String} {workRevision : Int} {u : Unit} (hb : Bound s)
    (h : queueResume s taskId workRevision = .ok (s', u)) :
    Effect d (.queueResume taskId workRevision) none s s' := by
  simp only [queueResume, bind_ok_iff, require_ok, expect_ok, exists_const, Except.ok.injEq,
    Prod.mk.injEq] at h
  obtain ⟨t, ht, ⟨-, hst⟩, hidle, rfl, -⟩ := h
  obtain ⟨hm, rfl⟩ := Table.find?_eq_some.mp ht
  exact move_effect rfl hb (.resume hm (.inl hst) hidle) ⟨List.prefix_rfl, rfl, rfl⟩ ⟨rfl, rfl⟩

theorem answerQuestion_effect {spec : AnswerSpec} {r : QuestionStatus} (hb : Bound s)
    (h : d.answerQuestion s spec = .ok (s', r)) : Effect d (.answerQuestion spec) none s s' := by
  simp only [DB.answerQuestion, bind_ok_iff, require_ok, expect_ok, exists_const] at h
  obtain ⟨-, q, -, -, t, ht, -, h⟩ := h
  obtain ⟨hm, hid⟩ := Table.find?_eq_some.mp ht
  split at h
  · simp only [bind_ok_iff, require_ok, exists_const, Except.ok.injEq, Prod.mk.injEq] at h
    obtain ⟨-, rfl, -⟩ := h
    exact idle_effect rfl hb rfl (.refl _) (.refl _)
  · simp only [DB.queueAnswer, bind_ok_iff, require_ok, exists_const, Except.ok.injEq,
      Prod.mk.injEq] at h
    obtain ⟨hst, hidle, -, rfl, -⟩ := h
    rw [← hid] at hidle ⊢
    have hmove : Move d (.answerQuestion spec) none s.toCore
      (s.toCore.enqueue t.id .resumeQueued) :=
      .resume hm (.inr hst) hidle
    exact ⟨.move hmove, hb.keep hmove.kept ⟨List.prefix_rfl, rfl, rfl⟩,
      .spare (spares_of_event rfl) (.answer rfl rfl), fun _ h => h⟩

/-- An accepted review decides a task whose result is ready. -/
theorem reviewResult_cases {spec : ReviewSpec} {r : String}
    (h : d.reviewResult s spec = .ok (s', r)) :
    (¬ s.reviewDecisions.Unused ReviewDecision.actionSlot spec.actionSlot ∧ s' = s) ∨
      s.reviewDecisions.Unused ReviewDecision.actionSlot spec.actionSlot ∧
      ∃ t reviews e, t ∈ s.tasks ∧ t.id = spec.taskId ∧ t.status = .resultReady ∧
      ((spec.decision = "accept" ∧
          s' = { s with toCore := s.toCore.accept spec.taskId, reviewDecisions := reviews }) ∨
        (spec.decision ≠ "accept" ∧ ∃ core, s.toCore.reject spec.taskId e = .ok core ∧
          s' = { s with toCore := core, reviewDecisions := reviews })) := by
  simp only [DB.reviewResult, bind_ok_iff, require_ok, exists_const] at h
  obtain ⟨-, h⟩ := h
  split at h
  · rename_i previous hprev
    simp only [bind_ok_iff, require_ok, exists_const, Except.ok.injEq, Prod.mk.injEq] at h
    obtain ⟨hpm, hpid⟩ := Table.find?_eq_some.mp hprev
    exact .inl ⟨fun hu => hu previous hpm hpid, h.2.1.symm⟩
  · rename_i hnone
    simp only [DB.applyReview, DB.reviewedEvent, bind_ok_iff, require_ok, expect_ok, exists_const,
      Except.ok.injEq] at h
    obtain ⟨_, ⟨t, ht, row, -, hst, -, -, rfl⟩, -, reviews, -, h⟩ := h
    obtain ⟨hm, hid⟩ := Table.find?_eq_some.mp ht
    refine .inr ⟨Table.find?_eq_none.mp hnone, t, reviews, row.body.attemptId, hm, hid, hst.2.1, ?_⟩
    split at h
    · rename_i hd
      cases h
      exact .inl ⟨hd, rfl⟩
    · rename_i hd
      simp only [bind_ok_iff, Except.ok.injEq, Prod.mk.injEq] at h
      obtain ⟨core, hcore, rfl, -⟩ := h
      exact .inr ⟨hd, core, hcore, rfl⟩

theorem reject_move {c c' : Core} {t : Task} {attemptId : String} (ht : t ∈ c.tasks)
    (hs : t.status = .resultReady) (h : c.reject t.id attemptId = .ok c') :
    Move d op (if c.spent t then some t.id else none) c c' := by
  obtain ⟨u, hu, huid, hx⟩ := blockIfExhausted_cases (c := c.rejected t.id attemptId) h
  have hsame : (c.rejected t.id attemptId).spent u ↔ c.spent t := by
    rw [← spent_iff (static_of_kept rejected_kept ht hu huid), Core.spent, Core.rejected,
      Core.taskAttempts_setAttemptStatus]
    rfl
  obtain ⟨hsp, rfl⟩ | ⟨hsp, rfl⟩ := hx
  · rw [if_pos (hsame.mp hsp)]
    exact .rejectLast ht hs (hsame.mp hsp)
  · rw [if_neg fun hx => hsp (hsame.mpr hx)]
    exact .reject ht hs fun hx => hsp (hsame.mpr hx)

theorem reviewResult_effect {spec : ReviewSpec} {r : String} (hb : Bound s)
    (h : d.reviewResult s spec = .ok (s', r)) :
    Effect d (.reviewResult spec) (s.ended (.reviewResult spec)) s s' := by
  obtain ⟨hused, rfl⟩ | ⟨hnew, t, reviews, e, ht, hid, hst, ⟨hd, rfl⟩ | ⟨hd, core, hcore, rfl⟩⟩ :=
    reviewResult_cases h
  · rw [State.ended, if_neg fun h => hused h.1]
    exact idle_effect rfl hb rfl (.refl _) (.refl _)
  · rw [State.ended, if_neg fun h => h.2.1 hd]
    exact move_effect rfl hb (hid ▸ .accept ht hst) ⟨List.prefix_rfl, rfl, rfl⟩ ⟨rfl, rfl⟩
  · have hspent : (∃ u ∈ s.tasks.rows, u.id = spec.taskId ∧ s.spent u) ↔ s.spent t := by
      constructor
      · rintro ⟨u, hu, huid, h⟩
        obtain rfl : u = t := Table.eq_of_key hu ht (huid.trans hid.symm)
        exact h
      · exact fun h => ⟨t, ht, hid, h⟩
    rw [State.ended, if_congr (Q := s.spent t) ⟨fun h => hspent.mp h.2.2,
      fun h => ⟨hnew, hd, hspent.mpr h⟩⟩ rfl rfl, ← hid]
    exact move_effect rfl hb (reject_move ht hst (hid ▸ hcore)) ⟨List.prefix_rfl, rfl, rfl⟩
      ⟨rfl, rfl⟩

theorem queueRetry_effect {spec : RetrySpec} {r : RetryReceipt} (hb : Bound s)
    (h : d.queueRetry s spec = .ok (s', r)) : Effect d (.queueRetry spec) none s s' := by
  simp only [DB.queueRetry, bind_ok_iff, require_ok, exists_const] at h
  obtain ⟨-, h⟩ := h
  split at h
  · simp only [bind_ok_iff, require_ok, exists_const, Except.ok.injEq, Prod.mk.injEq] at h
    obtain ⟨-, rfl, -⟩ := h
    exact idle_effect rfl hb rfl (.refl _) (.refl _)
  · simp only [DB.applyRetry, bind_ok_iff, require_ok, expect_ok, exists_const, Except.ok.injEq,
      Prod.mk.injEq] at h
    obtain ⟨-, t, ht, ⟨hst, -⟩, hidle, hleft, -, _, -, payload, -, retries, -, rfl, -⟩ := h
    obtain ⟨hm, hid⟩ := Table.find?_eq_some.mp ht
    rw [← hid] at hidle ⊢
    exact move_effect rfl hb (.retry hm hst hidle hleft ⟨_, rfl⟩) ⟨List.prefix_rfl, rfl, rfl⟩
      ⟨rfl, rfl⟩

/-! ## Acknowledgements -/

theorem applyAckDecision_frame {taskId : String} {a : AckDecision}
    (h : d.applyAckDecision taskId s a = .ok s') :
    s'.toCore = s.toCore ∧ Settled s s' ∧ Unasked s s' := by
  simp only [DB.applyAckDecision, bind_ok_iff, require_ok, expect_ok, exists_const] at h
  obtain ⟨source, -, -, h⟩ := h
  split at h
  · simp only [bind_ok_iff, require_ok, exists_const, Except.ok.injEq] at h
    obtain ⟨-, rfl⟩ := h
    exact ⟨rfl, .refl _, .refl _⟩
  · simp only [DB.recordDecision, bind_ok_iff, require_ok, expect_ok, exists_const,
      Except.ok.injEq] at h
    obtain ⟨-, _, -, -, decisions, -, rfl⟩ := h
    refine ⟨rfl, ⟨List.prefix_rfl, rfl, ?_⟩, rfl, ?_⟩ <;> simp only <;> split
    · exact map_static_update ReportEvent.binding fun _ => rfl
    · rfl
    · rfl
    · exact map_static_update RuntimeEvent.slot fun _ => rfl

theorem applyAckDecisions_frame {taskId : String} {as : List AckDecision}
    (h : as.foldlM (d.applyAckDecision taskId) s = .ok s') :
    s'.toCore = s.toCore ∧ Settled s s' ∧ Unasked s s' := by
  induction as generalizing s with
  | nil => cases h; exact ⟨rfl, .refl _, .refl _⟩
  | cons a as ih =>
    rw [List.foldlM_cons, bind_ok_iff] at h
    obtain ⟨s₁, h₁, h₂⟩ := h
    obtain ⟨hc₁, hs₁, hu₁⟩ := applyAckDecision_frame h₁
    obtain ⟨hc₂, hs₂, hu₂⟩ := ih h₂
    exact ⟨hc₂.trans hc₁, hs₁.trans hs₂, hu₁.trans hu₂⟩

theorem ackDecisions_effect {taskId deliveryId proof : String} {as : List AckDecision} {u : Unit}
    (hb : Bound s) (h : d.ackDecisions s taskId deliveryId proof as = .ok (s', u)) :
    Effect d (.ackDecisions taskId deliveryId proof as) none s s' := by
  simp only [DB.ackDecisions, bind_ok_iff, require_ok, exists_const] at h
  obtain ⟨-, -, h⟩ := h
  split at h
  · simp only [bind_ok_iff, require_ok, exists_const, Except.ok.injEq, Prod.mk.injEq] at h
    obtain ⟨-, rfl, -⟩ := h
    exact idle_effect rfl hb rfl (.refl _) (.refl _)
  · simp only [bind_ok_iff, expect_ok, Except.ok.injEq, Prod.mk.injEq] at h
    obtain ⟨s₁, h₁, receipts, -, rfl, -⟩ := h
    obtain ⟨hc, hs, hu⟩ := applyAckDecisions_frame h₁
    exact idle_effect rfl hb hc ⟨hs.1, hs.2, hs.3⟩ ⟨hu.1, hu.2⟩

/-! ## Stops -/

theorem mem_of_activeSegment {c : Core} {taskId : String} {g : Segment}
    (h : c.activeSegment taskId = some g) :
    g ∈ c.segments ∧ g.taskId = taskId ∧ g.active = true := by
  have hm := List.argmax_mem h
  simpa [Table.mem_def] using hm

/-- An accepted stop cancels a waiting task, repeats a stop, or stops the active segment. -/
theorem requestStop_cases {taskId reason : String} {workRevision : Int} {r : StopDispatch}
    (h : requestStop env s taskId workRevision reason = .ok (s', r)) :
    ∃ t ∈ s.tasks, t.id = taskId ∧ t.workRevision = workRevision ∧ reason ≠ "" ∧
      ((t.status.cancellable = true ∧ s' = { s with toCore := s.toCore.cancel taskId }) ∨
        (t.status.cancellable = false ∧ ∃ g, s.activeSegment taskId = some g ∧
          (((s.stops.find? g.id).isSome = true ∧ s' = s) ∨
            (s.stops.find? g.id = none ∧ ∃ stops, s.insertStop env g reason = some stops ∧
              s' = { s with toCore := s.toCore.stopSegment g.id taskId, stops := stops })))) := by
  simp only [requestStop, bind_ok_iff, require_ok, expect_ok, exists_const] at h
  obtain ⟨⟨-, -, hreason⟩, t, ht, hrev, h⟩ := h
  obtain ⟨hm, hid⟩ := Table.find?_eq_some.mp ht
  refine ⟨t, hm, hid, hrev, hreason, ?_⟩
  split at h
  · rename_i hc
    cases h
    exact .inl ⟨hc, rfl⟩
  · rename_i hc
    simp only [bind_ok_iff, expect_ok] at h
    obtain ⟨g, hg, h⟩ := h
    refine .inr ⟨by simpa using hc, g, hg, ?_⟩
    split at h
    · rename_i stop hstop
      cases h
      exact .inl ⟨by rw [hstop]; rfl, rfl⟩
    · rename_i hnone
      simp only [bind_ok_iff, expect_ok, Except.ok.injEq, Prod.mk.injEq] at h
      obtain ⟨stops, hi, rfl, -⟩ := h
      exact .inr ⟨hnone, stops, hi, rfl⟩

theorem stopSegment_move {c : Core} {g : Segment} (hg : g ∈ c.segments) (ha : g.active = true) :
    Move d op none c (c.stopSegment g.id g.taskId) := by
  refine .stopping ?_ hg ha
  refine quiet_updateSegment (fun _ => rfl) (fun _ => rfl) fun k hk hid _ => ⟨?_, by simp⟩
  obtain rfl : k = g := Table.eq_of_key hk hg hid
  exact Segment.active_iff.mp ha

theorem requestStop_effect {taskId reason : String} {workRevision : Int} {r : StopDispatch}
    (hb : Bound s) (h : requestStop env s taskId workRevision reason = .ok (s', r)) :
    Effect d (.requestStop env taskId workRevision reason)
      (s.ended (.requestStop env taskId workRevision reason)) s s' := by
  obtain ⟨t, ht, rfl, -, -, hcases⟩ := requestStop_cases h
  have hended : s.ended (.requestStop env t.id workRevision reason) =
      if t.status.cancellable = true then some t.id else none := by
    refine if_congr ⟨?_, fun hc => ⟨t, ht, rfl, hc⟩⟩ rfl rfl
    rintro ⟨u, hu, huid, hc⟩
    obtain rfl : u = t := Table.eq_of_key hu ht huid
    exact hc
  rw [hended]
  obtain ⟨hc, rfl⟩ | ⟨hc, g, hg, h⟩ := hcases
  · rw [if_pos hc]
    exact move_effect rfl hb (.cancel ht hc) ⟨List.prefix_rfl, rfl, rfl⟩ ⟨rfl, rfl⟩
  · rw [if_neg (by simp [hc])]
    obtain ⟨-, rfl⟩ | ⟨-, stops, -, rfl⟩ := h
    · exact idle_effect rfl hb rfl (.refl _) (.refl _)
    · obtain ⟨hgm, hgt, hga⟩ := mem_of_activeSegment hg
      exact move_effect rfl hb (hgt ▸ stopSegment_move hgm hga) ⟨List.prefix_rfl, rfl, rfl⟩
        ⟨rfl, rfl⟩

theorem markStoppingUnknown_effect {u : Unit} (hb : Bound s)
    (h : markStoppingUnknown s = .ok (s', u)) : Effect d .markStoppingUnknown none s s' := by
  cases h
  exact move_effect rfl hb (.sweep _) ⟨List.prefix_rfl, rfl, rfl⟩ ⟨rfl, rfl⟩

end Operations

/-- Every accepted operation has its effect. -/
theorem exec_effect {d : DB} {s s' : State} {op : Op} (hb : Bound s) (h : d.exec s op = .ok s') :
    Effect d op (s.ended op) s s' := by
  cases op <;> simp only [DB.exec, committed_ok] at h <;> obtain ⟨r, h⟩ := h
  case submitPlan => exact submitPlan_effect hb h
  case beginCoordinatorEpoch => exact beginCoordinatorEpoch_effect hb h
  case registerHost => exact registerHost_effect hb h
  case authorizeHostRebind => exact authorizeHostRebind_effect hb h
  case beginHostReconcile => exact beginHostReconcile_effect hb h
  case finishHostReconcile => exact finishHostReconcile_effect hb h
  case markHostOffline => exact markHostOffline_effect hb h
  case claimReady => exact claimReady_effect hb h
  case pendingLaunches => exact pendingLaunches_effect hb h
  case commitHostEvent => exact (commitHostEvent_effect hb h).1
  case registerReportCapability => exact registerReportCapability_effect hb h
  case commitReportEvent => exact commitReportEvent_effect hb h
  case queueResume => exact queueResume_effect hb h
  case answerQuestion => exact answerQuestion_effect hb h
  case reviewResult => exact reviewResult_effect hb h
  case queueRetry => exact queueRetry_effect hb h
  case ackDecisions => exact ackDecisions_effect hb h
  case requestStop => exact requestStop_effect hb h
  case markStoppingUnknown => exact markStoppingUnknown_effect hb h
  case retireHost => exact retireHost_effect hb h
  case rebindOwner => exact rebindOwner_effect hb h

/-! ## Invariants of the scheduling rows -/

theorem bound_of_reachable {d : DB} {limits : ConcurrencyLimits} {s : State}
    (h : d.Reachable limits s) : Bound s :=
  reachable_induct (bound_fresh limits) (fun _ _ _ hb hx => (exec_effect hb hx).bound) h

/-- An invariant of `Step` that holds of an empty database holds in every reachable state. -/
theorem core_invariant {d : DB} {limits : ConcurrencyLimits} {I : Core → Prop}
    (h0 : I (Core.fresh limits)) (hstep : ∀ op x c c', I c → Step d op x c c' → I c') {s : State}
    (h : d.Reachable limits s) : I s.toCore := by
  have : Bound s ∧ I s.toCore := by
    refine reachable_induct (P := fun s => Bound s ∧ I s.toCore) ⟨bound_fresh limits, h0⟩ ?_ h
    intro s op s' ⟨hb, hi⟩ hx
    have heff := exec_effect hb hx
    exact ⟨heff.bound, hstep _ _ _ _ hi heff.step⟩
  exact this.2

end Orchestrator.Store
