import Orchestrator.Events.Dialogue
import Orchestrator.Events.StopRace

/-!
# The lifecycle of a question

A question is open while its segment or its task waits for the answer, queued
with its task, and started with the segment launched with the answer. Stops look
at neither: one cancels a task whose answer is queued, another overwrites the
outcome of a segment that has asked.
-/
namespace Orchestrator.Store
open Library

/-- The statuses a task ends in. -/
def TaskStatus.terminal : TaskStatus → Bool
  | .completed | .cancelled | .failed | .blockedDependency => true
  | _ => false

/-- The segment runs with the answer: its launch command is built from it. -/
def State.RunsWith (s : State) (g : Segment) (q : Question) : Prop :=
  g.active = true ∧ g.taskId = q.taskId ∧ g.attemptId = q.attemptId ∧
    s.latestQuestion g.taskId g.attemptId .resumeStarted = some q

structure QuestionsSound (s : State) : Prop where
  asked : ∀ q ∈ s.questions, q.status = .open → ∃ g, s.latestSegment q.taskId = some g ∧
    g.id = q.segmentId ∧ ((g.active = true ∧ g.outcome = .question) ∨
      ∃ t ∈ s.tasks, t.id = q.taskId ∧ t.status = .waitingQuestion)
  queued : ∀ q ∈ s.questions, q.status = .resumeQueued →
    ∃ t ∈ s.tasks, t.id = q.taskId ∧ t.status = .resumeQueued
  started : ∀ q ∈ s.questions, q.status = .resumeStarted → ∃ g ∈ s.segments, s.RunsWith g q
  ended : ∀ t ∈ s.tasks, t.status.terminal = true → ∀ q ∈ s.questions, q.taskId = t.id →
    q.status = .resolved

/-- A request to stop the task does not overwrite the outcome of a segment that has
asked, and does not cancel a task whose answer is queued. -/
def State.SparesQuestions (s : State) : Op → Prop
  | .requestStop env taskId workRevision reason =>
    (∀ g ∈ s.segments, g.taskId = taskId → g.active = true → g.outcome = .question →
      ¬ s.TakesStop env g workRevision reason) ∧
    (taskId ≠ "" ∧ 1 ≤ workRevision ∧ reason ≠ "" → ∀ t ∈ s.tasks, t.id = taskId →
      t.workRevision = workRevision → t.status = .resumeQueued →
        ∀ q ∈ s.questions, q.taskId = taskId → q.status ≠ .resumeQueued)
  | _ => True

/-! ## Soundness of a dialogue -/

section Sound
variable {d : DB} {s : State}

theorem Dialogue.sound (h : Dialogue s.toCore s.questions) (hs : Slots d.toPlatform s.toCore)
    (hr : Ranked s.toCore) (hro : Rounds s) : QuestionsSound s := by
  have hstarted : ∀ q ∈ s.questions, q.status = .resumeStarted →
      ∃ g ∈ s.segments, s.RunsWith g q := by
    intro q hq hst
    obtain ⟨g, hg, ha, htask, hattempt⟩ := hro.started q hq hst
    refine ⟨g, hg, ha, htask, hattempt, ?_⟩
    cases hl : s.latestQuestion g.taskId g.attemptId .resumeStarted with
    | none =>
      have hnil := List.filter_eq_nil_iff.mp (List.argmax_eq_none.mp hl) q hq
      simp [htask, hattempt, hst] at hnil
    | some r =>
      obtain ⟨hrm, hrt, -, hrs⟩ := latestQuestion_spec hl
      rw [Table.eq_of_key hrm hq (h.single r hrm hrs q hq hst (hrt.trans htask))]
  refine ⟨fun q hq hst => ?_, fun q hq hst => ?_, hstarted, fun t ht hend q hq hid => ?_⟩
  · obtain ⟨g, hg, hask⟩ := h.asked q hq
    have hlast : s.latestSegment q.taskId = some g := hr.latestSegment_iff.mpr ⟨hg, hask.2.1,
      fun k hk hkt => h.latest q hq (.inl hst) g hg hask.1 k hk (hkt.trans hask.2.1.symm)⟩
    refine ⟨g, hlast, hask.1, ?_⟩
    rcases h.waiting q hq hst g hg hask.1 with ha | ⟨t, ht, hqt, ⟨-, htst⟩ | ⟨hqs, -⟩⟩
    · exact .inl ⟨ha, hask.2.2.2⟩
    · exact .inr ⟨t, ht, hqt.symm, htst⟩
    · rw [hst] at hqs; cases hqs
  · obtain ⟨t, ht, hqt, ⟨hqs, -⟩ | ⟨-, htst⟩⟩ := h.queued q hq hst
    · rw [hst] at hqs; cases hqs
    · exact ⟨t, ht, hqt.symm, htst⟩
  · -- a task that has ended is not busy, and waits for nothing
    have hbusy : t.status.busy = false := by
      revert hend; cases t.status <;> simp [TaskStatus.terminal, TaskStatus.busy]
    have hwait : ∀ u ∈ s.tasks, ¬ q.AwaitedBy u := by
      rintro u hu ⟨hqu, hw⟩
      obtain rfl : u = t := Table.eq_of_key hu ht (hqu.symm.trans hid)
      rcases hw with ⟨-, hst⟩ | ⟨-, hst⟩ <;> rw [hst] at hend <;> cases hend
    cases hst : q.status with
    | resolved => rfl
    | «open» =>
      obtain ⟨g, hg, hask⟩ := h.asked q hq
      rcases h.waiting q hq hst g hg hask.1 with ha | ⟨u, hu, hw⟩
      · exact absurd (hask.2.1.trans hid) (hs.idle ht hbusy g hg ha)
      · exact absurd hw (hwait u hu)
    | resumeQueued =>
      obtain ⟨u, hu, hw⟩ := h.queued q hq hst
      exact absurd hw (hwait u hu)
    | resumeStarted =>
      obtain ⟨g, hg, ha, htask, -⟩ := hstarted q hq hst
      exact absurd (htask.trans hid) (hs.idle ht hbusy g hg ha)

end Sound

/-! ## Events -/

section Events
variable {d : DB} {env : Env} {s s' : State} {e : Event} {kind : ReportKind}

theorem not_awaitedBy_busy {q : Question} {t : Task} (h : t.status.busy = true) :
    ¬ q.AwaitedBy t := by
  rintro ⟨-, ⟨-, hst⟩ | ⟨-, hst⟩⟩ <;> rw [hst] at h <;> cases h

/-- A rewrite of segments alone. -/
theorem Dialogue.updateSegment {c : Core} {questions : Table Question.questionId} {id : String}
    {p : Segment → Bool} {f : Segment → Segment} {hf : ∀ g, (f g).id = g.id}
    (h : Dialogue c questions) (hst : ∀ g, (f g).static = g.static)
    (ha : ∀ g, p g = true → g.status ≠ .exited ∧ (f g).status ≠ .exited)
    (ho : ∀ g, p g = true → ((f g).outcome = .question ↔ g.outcome = .question)) :
    Dialogue (c.updateSegment id p f hf) questions := by
  refine h.calm (calm_updateSegments fun g _ hp => ?_) fun _ _ t ht _ => ht
  rw [Bool.and_eq_true] at hp
  obtain ⟨h1, h2⟩ := ha g hp.2
  exact ⟨hst g, (Segment.active_iff.mpr h2).trans (Segment.active_iff.mpr h1).symm, ho g hp.2⟩

theorem applyPhase_dialogue {c : Core} {questions : Table Question.questionId} (id : String)
    {next : SegmentStatus} (allowed : List SegmentStatus) (hn : next ≠ .exited)
    (h : Dialogue c questions) : Dialogue (c.applyPhase id next allowed) questions := by
  refine h.updateSegment (fun _ => rfl) (fun g hp => ⟨?_, hn⟩) fun _ _ => Iff.rfl
  simp only [Bool.and_eq_true, decide_eq_true_eq] at hp
  exact hp.2

/-- No other outcome replaces that of a question. -/
theorem setOutcome_dialogue {c : Core} {questions : Table Question.questionId} (id : String)
    {outcome : Outcome} (hn : outcome ≠ .question) (h : Dialogue c questions) :
    Dialogue (c.setOutcome id outcome) questions := by
  refine h.updateSegment (fun _ => rfl) (fun g hp => ?_) fun g hp => ?_ <;>
    simp only [Bool.and_eq_true, Bool.or_eq_true, decide_eq_true_eq] at hp
  · exact ⟨hp.1, hp.1⟩
  · rcases hp.2 with ho | ho <;> simp [ho, hn]

theorem applyQuestion_dialogue (h : Dialogue s.toCore s.questions) (hr : Ranked s.toCore)
    (hn : ∀ g ∈ s.segments, g.id = e.segmentId → Names e g) (hx : applyQuestion s e = .ok s') :
    Dialogue s'.toCore s'.questions := by
  simp only [applyQuestion, bind_ok_iff, require_ok, expect_ok, exists_const] at hx
  obtain ⟨-, g, hg, hx⟩ := hx
  obtain ⟨hm, hid⟩ := Table.find?_eq_some.mp hg
  split at hx
  · cases hx; exact h
  · rename_i hact
    simp only [bind_ok_iff, require_ok, expect_ok, exists_const, Except.ok.injEq] at hx
    obtain ⟨-, questions, hi, hout, rfl⟩ := hx
    have ha := Segment.active_iff.mpr hact
    exact h.ask hm ha hout (hn g hm hid) (hr.latest g hm ha) hi

theorem ensureQuestionStop_dialogue (h : Dialogue s.toCore s.questions)
    (hs : Slots d.toPlatform s.toCore) (hn : ∀ g ∈ s.segments, g.id = e.segmentId → Names e g)
    (hx : ensureQuestionStop env s e = .ok s') : Dialogue s'.toCore s'.questions := by
  obtain rfl | ⟨g, stops, hg, hl, -, rfl⟩ := ensureQuestionStop_cases hx
  · exact h
  · obtain ⟨hm, hid⟩ := Table.find?_eq_some.mp hg
    have ha := Segment.active_iff.mpr (SegmentStatus.launched_ne_exited hl)
    have hd : Dialogue (s.toCore.updateSegment e.segmentId (fun g => g.status.launched)
        (fun g => { g with status := .stopping })) s.questions :=
      h.updateSegment (fun _ => rfl)
        (fun g hp => ⟨SegmentStatus.launched_ne_exited hp, by simp⟩) fun _ _ => Iff.rfl
    refine hd.aside (.of_eq rfl) (aside_setTaskStatus _) fun q _ t ht htid => ?_
    exact not_awaitedBy_busy (hs.busy g hm ha t ht (htid.trans (hn g hm hid).2.1))

theorem ask_dialogue {s₁ : State} (h : Dialogue s.toCore s.questions)
    (hs : Slots d.toPlatform s.toCore) (hr : Ranked s.toCore)
    (hn : ∀ g ∈ s.segments, g.id = e.segmentId → Names e g) (h₁ : applyQuestion s e = .ok s₁)
    (h₂ : ensureQuestionStop env s₁ e = .ok s') : Dialogue s'.toCore s'.questions := by
  have hq := (applyQuestion_quiet h₁).1
  refine ensureQuestionStop_dialogue (applyQuestion_dialogue h hr hn h₁) (hs.quiet hq) ?_ h₂
  intro g hg hid
  obtain ⟨g₀, hg₀, hst, -, -⟩ := hq.of_mem hg
  obtain ⟨n1, n2, n3⟩ := hn g₀ hg₀ ((Segment.static_id hst).symm.trans hid)
  exact ⟨n1.trans (Segment.static_id hst).symm, n2.trans (Segment.static_taskId hst).symm,
    n3.trans (Segment.static_attemptId hst).symm⟩

theorem materialize_dialogue {segmentId sessionKind sessionId : String}
    (h : Dialogue s.toCore s.questions) (hb : Bound s) (hs : Slots d.toPlatform s.toCore)
    (hr : Ranked s.toCore)
    (hx : materializePendingReportQuestion env s segmentId sessionKind sessionId = .ok s') :
    Dialogue s'.toCore s'.questions := by
  obtain ⟨-, rfl⟩ | ⟨r, c, order, s₁, hpend, -, -, -, h₁, h₂⟩ :=
    materialize_cases hx
  · exact h
  · have hm : r ∈ s.reportEvents := (List.mem_filter.mp (List.argmin_mem hpend)).1
    refine ask_dialogue (s := { s with reportEvents := _, deliveryOrder := order }) h hs hr ?_ h₁ h₂
    exact fun g hg hid => hb.report_names hm hg hid

theorem applySession_dialogue (h : Dialogue s.toCore s.questions) (hb : Bound s)
    (hs : Slots d.toPlatform s.toCore) (hr : Ranked s.toCore)
    (hx : applySession env s e = .ok s') : Dialogue s'.toCore s'.questions := by
  obtain rfl | ⟨row, sessions, -, -, hx⟩ := applySession_cases hx
  · exact h
  · exact materialize_dialogue (s := { s with sessions := sessions }) h
      ⟨hb.launches, hb.capabilities, hb.reports⟩ hs hr hx

theorem applyUnknown_dialogue {c : Core} {questions : Table Question.questionId}
    (h : Dialogue c questions) (hs : Slots d.toPlatform c)
    (hn : ∀ g ∈ c.segments, g.id = e.segmentId → Names e g) :
    Dialogue (c.applyUnknown e) questions := by
  unfold Core.applyUnknown
  split
  · rename_i hany
    simp only [Option.any_eq_true, decide_eq_true_eq] at hany
    obtain ⟨g, hg, hact⟩ := hany
    obtain ⟨hm, hid⟩ := Table.find?_eq_some.mp hg
    have hd : Dialogue (c.updateSegment e.segmentId (fun g => g.status ≠ .exited)
        (fun g => { g with status := .unknown, phase := .unknown })) questions :=
      h.updateSegment (fun _ => rfl) (fun g hp => ⟨by simpa using hp, by simp⟩) fun _ _ => Iff.rfl
    refine hd.aside (.of_eq rfl) (aside_setTaskStatus _) fun q _ t ht htid => ?_
    exact not_awaitedBy_busy (hs.busy g hm (Segment.active_iff.mpr hact) t ht
      (htid.trans (hn g hm hid).2.1))
  · exact h

/-- What follows an exit leaves the tasks alone that wait. -/
theorem afterExit_aside {c c' : Core} {taskId : String} {status : TaskStatus}
    (h : c.afterExit taskId status = .ok c') : c.Aside c' taskId ∧
      (status = .waitingQuestion → c' = c) := by
  unfold Core.afterExit at h
  split at h
  · cases h; exact ⟨aside_releaseReady, by simp⟩
  · obtain ⟨-, -, -, ⟨-, rfl⟩ | ⟨-, rfl⟩⟩ := blockIfExhausted_cases h
    · exact ⟨aside_block, by simp⟩
    · exact ⟨.of_eq rfl, by simp⟩
  · cases h; exact ⟨.of_eq rfl, fun _ => rfl⟩

theorem applyExit_dialogue (h : Dialogue s.toCore s.questions) (hs : Slots d.toPlatform s.toCore)
    (hn : ∀ g ∈ s.segments, g.id = e.segmentId → Names e g) (hx : d.applyExit s e = .ok s') :
    Dialogue s'.toCore s'.questions := by
  obtain ⟨g, hg, hcases⟩ := applyExit_cases hx
  obtain ⟨hm, hid⟩ := Table.find?_eq_some.mp hg
  obtain ⟨-, rfl⟩ | ⟨hact, t, core, ht, hcore, rfl⟩ := hcases
  · exact h
  · obtain ⟨htm, htid⟩ := Table.find?_eq_some.mp ht
    have htg : t.id = g.taskId := htid.trans (hn g hm hid).2.1
    obtain ⟨haside, hsame⟩ := afterExit_aside hcore
    have hstays : s.toCore.Aside core t.id := by
      rw [htid]
      exact ((Core.Aside.of_eq rfl).trans (aside_setTaskStatus _)).trans haside
    have hsegs : core.segments = (s.toCore.settle g.id
        (settledMs e.activeMs g.reservation.grantedMs)).segments := by
      rw [afterExit_segments hcore, hid]
      rfl
    refine h.exit (fun q => ?_) hm htm htg hsegs hstays fun hout => ?_
    · exact not_awaitedBy_busy (hs.busy g hm (Segment.active_iff.mpr hact) t htm htg)
    · have hst : (exitStatus d t g.outcome e).2 = .waitingQuestion := by rw [hout]; rfl
      rw [hsame hst]
      exact ⟨_, Core.mem_setTaskStatus.mpr (.inl ⟨t, htm, htid, rfl⟩), rfl, hst⟩

theorem applyEvent_dialogue (h : Dialogue s.toCore s.questions) (hb : Bound s)
    (hs : Slots d.toPlatform s.toCore) (hr : Ranked s.toCore)
    (hn : ∀ g ∈ s.segments, g.id = e.segmentId → Names e g) (hx : d.applyEvent env s e = .ok s') :
    Dialogue s'.toCore s'.questions := by
  unfold DB.applyEvent at hx
  split at hx
  case h_1 => cases hx; exact applyPhase_dialogue _ _ (by simp) h
  case h_2 => cases hx; exact applyPhase_dialogue _ _ (by simp) h
  case h_3 => cases hx; exact applyPhase_dialogue _ _ (by simp) h
  case h_4 => exact applySession_dialogue h hb hs hr hx
  case h_5 => exact applyQuestion_dialogue h hr hn hx
  case h_6 => cases hx; exact setOutcome_dialogue _ (by simp) h
  case h_7 => cases hx; exact setOutcome_dialogue _ (by simp) h
  case h_8 => cases hx; exact setOutcome_dialogue _ (by simp) h
  case h_9 => cases hx; exact applyUnknown_dialogue h hs hn
  case h_10 => exact applyExit_dialogue h hs hn hx
  case h_11 => cases hx

end Events

/-! ## Operations -/

section Operations
variable {d : DB} {limits : ConcurrencyLimits} {env : Env} {s s' : State} {op : Op}

theorem accept_aside {c : Core} {taskId : String} : c.Aside (c.accept taskId) taskId :=
  (aside_setTaskStatus _).trans aside_releaseReady

theorem reject_aside {c c' : Core} {taskId attemptId : String}
    (h : c.reject taskId attemptId = .ok c') : c'.segments = c.segments ∧ c.Aside c' taskId := by
  have hset : c.Aside
    ((c.setTaskStatus taskId .failed).setAttemptStatus attemptId .failed) taskId :=
    aside_setTaskStatus _
  obtain ⟨-, -, -, ⟨-, rfl⟩ | ⟨-, rfl⟩⟩ := blockIfExhausted_cases h
  · exact ⟨rfl, hset.trans aside_block⟩
  · exact ⟨rfl, hset⟩

theorem retry_aside {c : Core} {taskId : String} (payload : Option String) :
    c.Calm ((c.setAdapter taskId payload).enqueue taskId .ready) ∧
      c.Aside ((c.setAdapter taskId payload).enqueue taskId .ready) taskId := by
  cases payload with
  | none => exact ⟨.of_eq rfl, aside_enqueue _⟩
  | some payload => exact ⟨.of_eq rfl, aside_setTask.trans (aside_enqueue _)⟩

theorem calm_sweep (c : Core) : c.Calm (c.updateSegments (fun g => g.status = .stopping)
    (fun g => { g with status := .unknown })) := by
  refine calm_updateSegments fun g _ hp => ⟨rfl, ?_, Iff.rfl⟩
  have hst : g.status = .stopping := by simpa using hp
  rw [Segment.active_iff.mpr (by simp), Segment.active_iff.mpr (by simp [hst])]

/-- A task the sweep reaches is busy. -/
theorem sweep_spares {c : Core} (hs : Slots d.toPlatform c) {t : Task} (ht : t ∈ c.tasks)
    (hb : t.status.busy = false) : t ∈ c.markStoppingUnknown.tasks := by
  refine Table.mem_update_of_not (h := by simp) ht ?_
  by_contra hsel
  simp only [Bool.not_eq_false, Core.taskUnknown, List.any_eq_true, Bool.and_eq_true,
    decide_eq_true_eq] at hsel
  obtain ⟨g', hg', hgt, hst⟩ := hsel
  obtain ⟨φ, hr, hφ⟩ := calm_sweep c
  obtain ⟨g, hg, rfl⟩ := List.mem_map.mp (hr ▸ hg')
  obtain ⟨h1, h2, -⟩ := hφ g hg
  have ha : g.active = true := by rw [← h2, Segment.active_iff, hst]; simp
  rw [hs.busy g hg ha t ht (hgt.symm.trans (Segment.static_taskId h1))] at hb
  cases hb

theorem sweep_dialogue {c : Core} {questions : Table Question.questionId}
    (h : Dialogue c questions) (hs : Slots d.toPlatform c) :
    Dialogue c.markStoppingUnknown questions := by
  refine h.calm ((calm_sweep c).trans (.of_eq rfl)) fun q _ t ht hw => sweep_spares hs ht ?_
  obtain ⟨-, ⟨-, hst⟩ | ⟨-, hst⟩⟩ := hw <;> rw [hst] <;> rfl

/-- An accepted stop names its task by its revision. -/
theorem requestStop_named {taskId reason : String} {workRevision : Int} {r : StopDispatch}
    (h : requestStop env s taskId workRevision reason = .ok (s', r)) :
    (taskId ≠ "" ∧ 1 ≤ workRevision ∧ reason ≠ "") ∧
      ∃ t, s.tasks.find? taskId = some t ∧ t.workRevision = workRevision := by
  simp only [requestStop, bind_ok_iff, require_ok, expect_ok, exists_const] at h
  obtain ⟨hvalid, t, ht, hrev, -⟩ := h
  exact ⟨hvalid, t, ht, hrev⟩

section
variable {t : Task} {g : Segment} {workRevision : Int} {reason : String} {r : StopDispatch}

/-- No question waits with a task whose result is there. -/
theorem review_dialogue {core : Core} (h : Dialogue s.toCore s.questions) (ht : t ∈ s.tasks)
    (hst : t.status = .resultReady)
    (hcore : core = s.toCore.accept t.id ∨
      ∃ attemptId, s.toCore.reject t.id attemptId = .ok core) : Dialogue core s.questions := by
  have hnot : ∀ q ∈ s.questions, ∀ u ∈ s.tasks, u.id = t.id → ¬ q.AwaitedBy u :=
    fun q _ u hu hut => by
      rw [Table.eq_of_key hu ht hut]
      exact not_awaitedBy hst (by simp) (by simp)
  rcases hcore with rfl | ⟨attemptId, hcore⟩
  · exact h.aside (.of_eq (releaseReady_released _).segments) accept_aside hnot
  · obtain ⟨hsegs, haside⟩ := reject_aside hcore
    exact h.aside (.of_eq hsegs) haside hnot

/-- A task that is cancelled waits for no question: it is spared while an answer is queued. -/
theorem cancel_dialogue (h : Dialogue s.toCore s.questions)
    (hc : s.SparesQuestions (.requestStop env t.id workRevision reason)) (ht : t ∈ s.tasks)
    (hcan : t.status.cancellable = true)
    (hx : requestStop env s t.id workRevision reason = .ok (s', r)) :
    Dialogue (s.toCore.cancel t.id) s.questions := by
  obtain ⟨hvalid, u, hu, hrev⟩ := requestStop_named hx
  rw [Table.find?_of_mem ht, Option.some.injEq] at hu
  refine h.aside (.of_eq rfl) ((aside_setTaskStatus _).trans aside_block) fun q hq v hv hvt => ?_
  obtain rfl := Table.eq_of_key hv ht hvt
  rintro ⟨hqt, ⟨-, hst⟩ | ⟨hqs, hst⟩⟩
  · rw [hst] at hcan
    cases hcan
  · exact hc.2 hvalid v hv rfl (hu ▸ hrev) hst q hq hqt hqs

/-- A segment that is stopped has not asked: it is spared if it has. -/
theorem stop_dialogue {stops : Table StopRow.segmentId} (h : Dialogue s.toCore s.questions)
    (hs : Slots d.toPlatform s.toCore)
    (hc : s.SparesQuestions (.requestStop env g.taskId workRevision reason))
    (hg : g ∈ s.segments) (ha : g.active = true) (hfree : s.stops.find? g.id = none)
    (hi : s.insertStop env g reason = some stops)
    (hx : requestStop env s g.taskId workRevision reason = .ok (s', r)) :
    Dialogue (s.toCore.stopSegment g.id g.taskId) s.questions := by
  obtain ⟨⟨h1, h2, h3⟩, u, hu, hrev⟩ := requestStop_named hx
  obtain ⟨hum, huid⟩ := Table.find?_eq_some.mp hu
  have hunused : s.stops.Unused StopRow.commandId (env.newId "stop") := by
    unfold State.insertStop at hi
    split at hi
    · assumption
    · cases hi
  have hout : g.outcome ≠ .question := fun hout => hc.1 g hg rfl ha hout
    ⟨h1, h2, h3, ⟨u, hum, huid, hrev⟩, Table.find?_eq_none.mp hfree, hunused⟩
  have hcalm : s.toCore.Calm (s.toCore.updateSegment g.id (fun _ => true)
      (fun g => { g with status := .stopping, outcome := .stopped })) := by
    refine calm_updateSegments fun k hk hp => ?_
    simp only [Bool.and_true, decide_eq_true_eq] at hp
    obtain rfl := Table.eq_of_key hk hg hp
    exact ⟨rfl, by rw [ha]; rfl, by simp [hout]⟩
  refine h.aside (hcalm.trans (.of_eq rfl))
    ((Core.Aside.of_eq rfl).trans (aside_setTaskStatus _)) fun q _ v hv hvt => ?_
  exact not_awaitedBy_busy (hs.busy g hg ha v hv hvt)

/-- A report may ask. -/
theorem report_dialogue {spec : ReportEventSpec} {c : ReportCapability} {payloadHash : String}
    {e₀ : Event} {s₁ : State} (h : Dialogue s.toCore s.questions) (hb : Bound s)
    (hs : Slots d.toPlatform s.toCore) (hr : Ranked s.toCore) (hc : c ∈ s.reportCapabilities)
    (h₁ : d.appendReport s c spec kind payloadHash
      (reportEvent c spec kind payloadHash (s.sessions.find? c.segmentId) e₀) = .ok s₁)
    (h₂ : askReported env s₁ kind
      (reportEvent c spec kind payloadHash (s.sessions.find? c.segmentId) e₀) = .ok s') :
    Dialogue s'.toCore s'.questions := by
  obtain ⟨row, events, order, usage, -, -, -, rfl⟩ := appendReport_frame h₁
  unfold askReported at h₂
  split at h₂
  · obtain ⟨s₂, hask, hstop⟩ := bind_ok_iff.mp h₂
    refine ask_dialogue (s := { s with
      reportEvents := events, storageUsage := usage, deliveryOrder := order,
      reportCapabilities := _ }) h hs hr (fun g hg hgid => ?_) hask hstop
    obtain ⟨k, hk, h1, h2, h3⟩ := hb.capabilities _ hc
    obtain rfl : g = k := Table.eq_of_key hg hk (hgid.trans h1.symm)
    exact ⟨h1.symm, h2.symm, h3.symm⟩
  · cases h₂
    exact h

end

theorem exec_dialogue (hreach : d.Reachable limits s) (h : Dialogue s.toCore s.questions)
    (hc : s.SparesQuestions op) (hx : d.exec s op = .ok s') :
    Dialogue s'.toCore s'.questions := by
  have hb := bound_of_reachable hreach
  have hs := slots_of_reachable hreach
  have hr := ranked_of_reachable hreach
  have hw := exec_writes hx
  cases hw with
  | same | fleet | ack | register => exact h
  | plan hl hrow hcore =>
    have hi := insertTasks_inserted hcore
    obtain ⟨new, hrows, -⟩ := hi.rows
    refine h.calm (.of_eq hi.segments) fun _ _ t ht _ => ?_
    rw [Table.mem_def, hrows]
    exact List.mem_append_left _ ht
  | claim hclaim => exact h.start hs hr (.reachable hreach) hclaim
  | pending =>
    exact h.calm (calm_updateSegments fun _ _ _ => ⟨rfl, rfl, Iff.rfl⟩) fun _ _ t ht _ => ht
  | resume ht hst =>
    refine h.aside (.of_eq rfl) (aside_enqueue _) fun q _ u hu hid => ?_
    rw [Table.eq_of_key hu ht hid]
    exact not_awaitedBy hst (by simp) (by simp)
  | answer ht hid hst hidle hq hqid hqt hopen hlast =>
    rw [← hqid]
    exact h.answer hr ht hst (taskActive_eq_zero.mp hidle) hq hqt hopen
  | review ht hid hst hcore => exact review_dialogue (s := s) h ht hst hcore
  | retry ht hid hst =>
    obtain ⟨hcalm, haside⟩ := retry_aside (c := s.toCore) _
    refine h.aside hcalm haside fun q _ u hu hut => ?_
    rw [Table.eq_of_key hu ht hut]
    exact not_awaitedBy hst (by simp) (by simp)
  | cancel ht hcan =>
    obtain ⟨r, hx⟩ := committed_ok.mp hx
    exact cancel_dialogue h hc ht hcan hx
  | stop hg ha hfree hi =>
    obtain ⟨r, hx⟩ := committed_ok.mp hx
    exact stop_dialogue h hs hc hg ha hfree hi hx
  | sweep => exact sweep_dialogue h hs
  | report hcm hid hkind hdec hopen h₁ h₂ => exact report_dialogue h hb hs hr hcm h₁ h₂
  | event hwf hnext hg hid hbound h₁ h₂ =>
    obtain ⟨events, order, usage, rfl⟩ := appendEvent_frame h₁
    exact applyEvent_dialogue (s := { s with
      runtimeEvents := events, deliveryOrder := order, storageUsage := usage }) h
      ⟨hb.launches, hb.capabilities, hb.reports⟩ hs hr (names_of_bound hg hid hbound) h₂

/-- A stop that takes a question from its task leaves an unsound state. -/
theorem spares_of_sound (hreach : d.Reachable limits s) (h : Dialogue s.toCore s.questions)
    (hsound : QuestionsSound (d.step s op)) : s.SparesQuestions op := by
  have hs := slots_of_reachable hreach
  cases op with
  | requestStop env taskId workRevision reason =>
    refine ⟨fun g hg hid ha hout htake => ?_, fun hvalid t ht hid hrev hst q hq hqt hqs => ?_⟩
    · subst hid
      obtain ⟨q, hq, hqg, hqs⟩ := h.open_of g hg ha hout
      obtain ⟨-, stops, hstep⟩ | ⟨hno, -⟩ :=
        requestStop_active (d := d) hs hg ha env workRevision reason
      · rw [hstep] at hsound
        obtain ⟨g', hlast, hid, ⟨-, hout'⟩ | ⟨t, ht, htid, hst⟩⟩ := hsound.asked q hq hqs
        · have hm : g' ∈ (s.toCore.updateSegment g.id (fun _ => true)
              (fun g => { g with status := .stopping, outcome := .stopped })).segments :=
            (List.mem_filter.mp (List.argmax_mem hlast)).1
          obtain ⟨k, -, rfl⟩ := Core.mem_updateSegment.mp hm
          rw [Table.patch_field Segment.id (by intro _; rfl)] at hid
          rw [Table.patch_pos (by simp [hid, hqg])] at hout'
          cases hout'
        · have hqid := (h.asker hq hg hqg.symm).2.1
          rcases Core.mem_setTaskStatus.mp ht with ⟨u, -, -, rfl⟩ | ⟨-, hne⟩
          · cases hst
          · exact hne (htid.trans hqid.symm)
      · exact hno htake
    · subst hid
      have hok : d.exec s (.requestStop env t.id workRevision reason) =
          .ok { s with toCore := s.toCore.cancel t.id } := by
        refine committed_ok.mpr ⟨{}, ?_⟩
        simp only [requestStop, require_pos hvalid, Table.find?_of_mem ht, expect_some, ok_bind,
          require_pos hrev, hst, TaskStatus.cancellable, if_true]
      rw [step_of_exec hok] at hsound
      obtain ⟨u, hu, huid, hust⟩ := hsound.queued q hq hqs
      obtain ⟨v, hv, rfl⟩ := mem_blockFailedDependencies.mp hu
      have hvid : v.id = t.id := by
        rw [afterBlocking_field Task.id (by intro _; rfl)] at huid
        exact huid.trans hqt
      obtain ⟨w, -, -, rfl⟩ | ⟨-, hne⟩ := Core.mem_setTaskStatus.mp hv
      · rw [afterBlocking_spared fun hd => by cases hd.blockable] at hust
        cases hust
      · exact hne hvid
  | _ => trivial

end Operations

/-- Every state of a run has its questions sound if and only if no stop of the run
takes a question from its task. -/
theorem questions_sound_iff (d : DB) (limits : ConcurrencyLimits) (ops : List Op) :
    (∀ before, before <+: ops → QuestionsSound (d.run (State.fresh limits) before)) ↔
      AllSteps d.step State.SparesQuestions (State.fresh limits) ops := by
  refine prefixes_iff_allSteps (K := fun s => d.Reachable limits s ∧ Dialogue s.toCore s.questions)
    ⟨reachable_fresh d limits, dialogue_fresh limits⟩ ?_ ?_ ?_
  · rintro s ⟨hr, h⟩
    exact h.sound (slots_of_reachable hr) (ranked_of_reachable hr) (.reachable hr)
  · rintro s op ⟨hr, h⟩ hc
    refine ⟨reachable_step op hr, ?_⟩
    exact step_induct (P := fun s => Dialogue s.toCore s.questions) h fun s' hx =>
      exec_dialogue hr h hc hx
  · rintro s op ⟨hr, h⟩ hsound
    exact spares_of_sound hr h hsound

/-- A question of the Host. -/
def questionOps : List Op :=
  toyStart [toyTask "a" 3 []] ++ [toyClaim 11, toyCommit "a" 11 1 .question]

/-- Its task waits, is answered, and is to be launched with the answer. -/
def answeredOps : List Op :=
  questionOps ++ [toyCommit "a" 11 2 .exited, .answerQuestion ⟨"a", 1, "host:1:question", 1, "yes"⟩]

/-- A stop before the launch cancels the task and leaves the answer queued; a stop
before the exit leaves the question open, to be answered by nobody. -/
theorem stop_takes_question :
    ¬ QuestionsSound (toyDB.run (State.fresh {})
        (answeredOps ++ [Op.requestStop (toyEnv 12) "a" 1 "stop"])) ∧
      ¬ QuestionsSound (toyDB.run (State.fresh {})
        (questionOps ++ [Op.requestStop (toyEnv 12) "a" 1 "stop",
          toyCommit "a" 11 2 .exited])) := by
  constructor
  · intro h
    have hfacts :
        (∃ q ∈ (toyDB.run (State.fresh {})
            (answeredOps ++ [Op.requestStop (toyEnv 12) "a" 1 "stop"])).questions.rows,
          q.taskId = "a" ∧ q.status = .resumeQueued) ∧
        ∀ t ∈ (toyDB.run (State.fresh {})
            (answeredOps ++ [Op.requestStop (toyEnv 12) "a" 1 "stop"])).tasks.rows,
          t.status = .cancelled := by decide +kernel
    obtain ⟨⟨q, hq, -, hqs⟩, hcancel⟩ := hfacts
    obtain ⟨t, ht, -, hst⟩ := h.queued q (Table.mem_def.mpr hq) hqs
    rw [hcancel t ht] at hst
    cases hst
  · intro h
    have hfacts :
        (∃ q ∈ (toyDB.run (State.fresh {})
            (questionOps ++ [Op.requestStop (toyEnv 12) "a" 1 "stop",
              toyCommit "a" 11 2 .exited])).questions.rows, q.status = .open) ∧
        (∀ t ∈ (toyDB.run (State.fresh {})
            (questionOps ++ [Op.requestStop (toyEnv 12) "a" 1 "stop",
              toyCommit "a" 11 2 .exited])).tasks.rows, t.status = .interrupted) ∧
        ∀ g ∈ (toyDB.run (State.fresh {})
            (questionOps ++ [Op.requestStop (toyEnv 12) "a" 1 "stop",
              toyCommit "a" 11 2 .exited])).segments.rows, g.active = false := by decide +kernel
    obtain ⟨⟨q, hq, hqs⟩, hstopped, hidle⟩ := hfacts
    obtain ⟨g, hg, -, ⟨ha, -⟩ | ⟨t, ht, -, hst⟩⟩ := h.asked q (Table.mem_def.mpr hq) hqs
    · rw [hidle g (List.mem_filter.mp (List.argmax_mem hg)).1] at ha
      cases ha
    · rw [hstopped t ht] at hst
      cases hst

end Orchestrator.Store
