import Orchestrator.Events.Standing
import Orchestrator.Events.Sources
import Orchestrator.Events.StopRace
import Orchestrator.Invariants.Blocking

/-!
# What a summary offers

The summary of a run offers the owner of a task the decisions the task waits for.
The operations check for themselves; here both are compared, in every state that
can be reached.
-/
namespace Orchestrator.Store
open Library

/-- The row of the task is another. -/
def State.Turns (s s' : State) (taskId : String) : Prop :=
  s'.tasks.find? taskId ≠ s.tasks.find? taskId

/-- No decision was made under the command. -/
structure FreshCommand (s : State) (commandId : String) : Prop where
  named : commandId ≠ "" ∧ commandId.utf8ByteSize ≤ 128
  reviews : s.reviewDecisions.Unused ReviewDecision.commandId commandId
  retries : s.retryDecisions.Unused RetryDecision.commandId commandId

/-- Some review under the command succeeds and changes the task. -/
def DB.MayReview (d : DB) (s : State) (taskId commandId : String) : Prop :=
  ∃ spec s' r, spec.taskId = taskId ∧ spec.commandId = commandId ∧
    d.reviewResult s spec = .ok (s', r) ∧ s.Turns s' taskId

/-- Some answer succeeds and changes the task. -/
def DB.MayAnswer (d : DB) (s : State) (taskId : String) : Prop :=
  ∃ spec s' r, spec.taskId = taskId ∧ d.answerQuestion s spec = .ok (s', r) ∧ s.Turns s' taskId

/-- Some request to resume the task succeeds and changes it. -/
def MayResume (s : State) (taskId : String) : Prop :=
  ∃ workRevision s' r, queueResume s taskId workRevision = .ok (s', r) ∧ s.Turns s' taskId

/-- Some retry under the command, with the present payload, succeeds and changes the task. -/
def DB.MayRetry (d : DB) (s : State) (taskId commandId : String) : Prop :=
  ∃ spec s' r, spec.taskId = taskId ∧ spec.commandId = commandId ∧ spec.useNextFallback = false ∧
    d.queueRetry s spec = .ok (s', r) ∧ s.Turns s' taskId

/-- What `strings.ToLower` and `strings.TrimSpace` leave as it is. -/
structure PlainTexts (d : DB) : Prop where
  lower : ∀ x, validDigest x = true → (∀ c ∈ x.toList, c.isUpper = false) → d.toLower x = x
  trim : ∀ x : String, (∀ c ∈ x.toList, c.isAlphanum = true) → d.trimSpace x = x

/-- Host events carry the work revision of their task, as the grant has it, and the hash of their
payload in lower case. -/
structure HostEventsProper (s : State) : Prop where
  revision : ∀ r ∈ s.runtimeEvents, ∀ t ∈ s.tasks, t.id = r.body.taskId →
    r.body.workRevision = t.workRevision
  hash : ∀ r ∈ s.runtimeEvents, validDigest r.payloadHash = true ∧
    ∀ c ∈ r.payloadHash.toList, c.isUpper = false

/-! ## What is offered -/

section Offers
variable {s : State} {t : Task}

theorem accept_offered : .accept ∈ (s.summaryTask t).allowedActions ↔
    t.status = .resultReady ∧ s.hasResult t = true ∧ s.taskActive t.id = 0 := by
  cases hst : t.status <;> simp [State.summaryTask, State.offers, hst]

theorem answer_offered : .answer ∈ (s.summaryTask t).allowedActions ↔
    t.status = .waitingQuestion ∧ s.hasOpenQuestion t = true ∧ s.taskActive t.id = 0 := by
  cases hst : t.status <;> simp [State.summaryTask, State.offers, hst]

theorem resume_offered : .resume ∈ (s.summaryTask t).allowedActions ↔
    t.status = .interrupted ∧ s.taskActive t.id = 0 := by
  cases hst : t.status <;> simp [State.summaryTask, State.offers, hst]

theorem retry_offered : .retry ∈ (s.summaryTask t).allowedActions ↔
    t.status = .failed ∧ s.hasFailure t = true ∧ s.taskActive t.id = 0 ∧
      ¬ s.attemptsExhausted t.budgetGroupId t.maxAttempts := by
  cases hst : t.status <;>
    simp [State.summaryTask, State.offers, hst, Core.attemptsExhausted]

theorem stop_offered : .stop ∈ (s.summaryTask t).allowedActions ↔ 0 < s.taskActive t.id := by
  cases hst : t.status <;> simp [State.summaryTask, State.offers, hst]

end Offers

/-! ## Reviews and answers -/

section Reviews
variable {d : DB} {limits : ConcurrencyLimits} {s s' : State} {t : Task} {commandId : String}

theorem turns_of (ht : t ∈ s.tasks) (h : t ∉ s'.tasks) : s.Turns s' t.id := by
  rw [State.Turns, Table.find?_of_mem ht]
  intro hfind
  exact h (Table.find?_eq_some.mp hfind).1

theorem not_turns {taskId : String} : ¬ s.Turns s taskId := fun h => h rfl

/-- A stored event can be named in a request. -/
theorem event_named (h : Logged d s) {r : RuntimeEvent} (hr : r ∈ s.runtimeEvents) :
    r.eventId ≠ "" ∧ 1 ≤ r.eventRevision ∧ r.actionSlot ≠ "" ∧ r.segmentId ≠ "" := by
  obtain ⟨hentry, -, -, hid, hseq, -, -, hseg, -⟩ := h.rows r hr
  have h1 : r.eventId = r.body.eventId := (congrArg RuntimeEvent.eventId hentry :)
  have h2 : r.eventRevision = r.body.sequence := (congrArg RuntimeEvent.eventRevision hentry :)
  have h3 : r.actionSlot = d.actionSlot r.body.producerId r.body.eventId :=
    (congrArg RuntimeEvent.actionSlot hentry :)
  have h4 : r.segmentId = r.body.segmentId := (congrArg RuntimeEvent.segmentId hentry :)
  rw [h1, h2, h3, h4]
  refine ⟨hid, hseq, ?_, hseg⟩
  rw [Platform.actionSlot, Ne, ← String.toList_inj, String.toList_append]
  simp

/-- An event is about the task of its segment. -/
theorem event_task (hr : d.Reachable limits s) {r : RuntimeEvent} (hm : r ∈ s.runtimeEvents)
    {g : Segment} (hg : g ∈ s.segments) (hgid : g.id = r.segmentId) :
    r.taskId = g.taskId ∧ r.body.taskId = g.taskId := by
  have hentry := ((logged_of_reachable hr).rows r hm).1
  have hseg : r.segmentId = r.body.segmentId := (congrArg RuntimeEvent.segmentId hentry :)
  have htask : r.taskId = r.body.taskId := (congrArg RuntimeEvent.taskId hentry :)
  obtain ⟨k, hk, hkseg, hktask, -⟩ := attributed_of_reachable hr r hm
  obtain rfl : k = g := Table.eq_of_key hk hg (hkseg.symm.trans (hseg.symm.trans hgid.symm))
  exact ⟨htask.trans hktask, hktask⟩

theorem taskActive_idle (hr : d.Reachable limits s) (ht : t ∈ s.tasks)
    (hst : t.status.busy = false) : s.taskActive t.id = 0 :=
  taskActive_eq_zero.mpr ((slots_of_reachable hr).idle ht hst)

/-- Who reviewed under the slot of an event reviewed the event. -/
theorem review_of_slot (hr : d.Reachable limits s) (hapart : SlotsApart d s) {r : RuntimeEvent}
    (hm : r ∈ s.runtimeEvents) {row : ReviewDecision} (hrow : row ∈ s.reviewDecisions)
    (hslot : row.actionSlot = r.actionSlot) : row.eventId = r.eventId := by
  obtain ⟨p, e, hp, -, hof⟩ := (effects_of_reachable hr).reviews row hrow
  have hmem : r.delivery ∈ s.deliveries := mem_deliveries.mpr (.inl ⟨r, hm, rfl⟩)
  have heq : p = r.delivery := hapart.eq (slotted_of_reachable hr) hmem hp.mem
    (hof.actionSlot.symm.trans hslot)
  exact hof.eventId.trans (congrArg Delivery.eventId heq)

/-- The result of a task that waits for its review can be accepted. -/
theorem reviewResult_accepts (hr : d.Reachable limits s) (htext : PlainTexts d)
    (hapart : SlotsApart d s) (hproper : HostEventsProper s) (ht : t ∈ s.tasks)
    (hready : t.status = .resultReady) {r : RuntimeEvent} (hm : r ∈ s.runtimeEvents)
    (hkind : r.body.kind = .result) {g : Segment} (hl : s.latestSegment t.id = some g)
    (hgid : g.id = r.segmentId) (hun : s.Unreviewed g.id) (hfresh : FreshCommand s commandId) :
    ∃ reviews, d.reviewResult s ⟨t.id, t.workRevision, r.eventId, r.eventRevision, r.payloadHash,
        r.actionSlot, "accept", commandId⟩ =
      .ok ({ s with toCore := s.toCore.accept t.id, reviewDecisions := reviews }, "accepted") := by
  obtain ⟨hg, hgt, -⟩ := (ranked_of_reachable hr).latestSegment_iff.mp hl
  obtain ⟨hid, hrev, hslot, -⟩ := event_named (logged_of_reachable hr) hm
  obtain ⟨htask, -⟩ := event_task hr hm hg hgid
  obtain ⟨htid, hwork⟩ := task_proper hr ht
  obtain ⟨hdigest, hlower⟩ := hproper.hash r hm
  have hsame : d.toLower r.payloadHash = r.payloadHash := htext.lower _ hdigest hlower
  have hseg : r.segmentId = r.body.segmentId :=
    (congrArg RuntimeEvent.segmentId ((logged_of_reachable hr).rows r hm).1 :)
  have hnone : ∀ row ∈ s.reviewDecisions, row.eventId ≠ r.eventId := fun row hrow heq =>
    hun row hrow r hm heq.symm hgid.symm
  have hslots : s.reviewDecisions.Unused ReviewDecision.actionSlot r.actionSlot :=
    fun row hrow heq => hnone row hrow (review_of_slot hr hapart hm hrow heq)
  have hhash : r.payloadHash ≠ "" := by
    intro hx
    rw [hx] at hdigest
    exact absurd hdigest (by decide)
  have hfind : s.reviewDecisions.find? r.actionSlot = none := Table.find?_eq_none.mpr hslots
  obtain ⟨reviews, hi, -⟩ := Table.insert?_isSome (a := (⟨r.actionSlot, t.id, r.eventId,
    r.eventRevision, d.toLower r.payloadHash, "accept", commandId⟩ : ReviewDecision)) hslots
  refine ⟨reviews, ?_⟩
  simp only [DB.reviewResult, bind_ok_iff, require_ok, exists_const, hfind]
  refine ⟨⟨htid, hwork, hid, hrev, hhash, hslot, hfresh.named.1, .inl trivial⟩, ?_⟩
  simp only [DB.applyReview, DB.reviewedEvent, bind_ok_iff, require_ok, expect_ok, exists_const]
  refine ⟨r.body, ⟨t, Table.find?_of_mem ht, r, Table.find?_of_mem hm,
    ⟨htask.trans hgt, hready, rfl, rfl, rfl, hsame.symm⟩, hkind, ?_, rfl⟩,
    ⟨hnone, hfresh.reviews⟩, reviews, hi, rfl⟩
  rw [hl, Option.map_some, hgid, hseg]

theorem mayReview_iff (hr : d.Reachable limits s) (htext : PlainTexts d) (hapart : SlotsApart d s)
    (hproper : HostEventsProper s) (ht : t ∈ s.tasks) (hfresh : FreshCommand s commandId) :
    .accept ∈ (s.summaryTask t).allowedActions ↔ d.MayReview s t.id commandId := by
  rw [accept_offered]
  constructor
  · rintro ⟨hready, hresult, -⟩
    simp only [State.hasResult, List.any_eq_true, Bool.and_eq_true, decide_eq_true_eq] at hresult
    obtain ⟨r, hrm, ⟨-, hkind⟩, hlast⟩ := hresult
    have hp : t.status.decisive = true := by rw [hready]; rfl
    obtain ⟨g, hl, hv⟩ := standing_of_reachable hr t ht hp
    rw [hl, Option.map_some, Option.some.injEq] at hlast
    obtain ⟨reviews, haccept⟩ := reviewResult_accepts hr htext hapart hproper ht hready hrm hkind hl
      hlast (hv.result hready).2 hfresh
    refine ⟨_, _, _, rfl, rfl, haccept, turns_of ht fun ht' => ?_⟩
    exact (accept_entered ht' hp).2 rfl
  · rintro ⟨spec, s', receipt, htask, -, hreview, hturn⟩
    obtain rfl | ⟨u, r, row, hj⟩ := reviewResult_judged hreview
    · exact absurd hturn not_turns
    obtain rfl : u = t := Table.eq_of_key hj.task ht (hj.taskId.trans htask)
    obtain ⟨g, hg, hl, hgid, hgt, -⟩ := hj.segment hr
    refine ⟨hj.ready, ?_, taskActive_idle hr ht (by rw [hj.ready]; rfl)⟩
    simp only [State.hasResult, List.any_eq_true, Bool.and_eq_true, decide_eq_true_eq]
    refine ⟨r, hj.event, ⟨(event_task hr hj.event hg hgid).1.trans hgt, hj.kind⟩, ?_⟩
    rw [hl, Option.map_some, hgid]

/-- An open question of the latest segment can be answered. -/
theorem answerQuestion_opens {spec : AnswerSpec} {q : Question} (ht : t ∈ s.tasks)
    (htask : spec.taskId = t.id) (hwork : spec.workRevision = t.workRevision)
    (hq : q ∈ s.questions) (hqid : spec.questionId = q.questionId)
    (hqrev : spec.questionRevision = q.questionRevision) (hqt : q.taskId = t.id)
    (hvalid : t.id ≠ "" ∧ 1 ≤ t.workRevision ∧ q.questionId ≠ "" ∧ 1 ≤ q.questionRevision ∧
      d.trimSpace spec.answer ≠ "" ∧ spec.answer.utf8ByteSize ≤ 32 * 1024)
    (hopen : q.status = .open) (hwait : t.status = .waitingQuestion) (hidle : s.taskActive t.id = 0)
    (hlast : (s.latestSegment t.id).map Segment.id = some q.segmentId) :
    ∃ s', d.answerQuestion s spec = .ok (s', .resumeQueued) ∧
      s'.toCore = s.toCore.enqueue t.id .resumeQueued := by
  refine ⟨{ s with
    toCore := s.toCore.enqueue t.id .resumeQueued
    questions := s.questions.update
      (fun q => q.questionId = spec.questionId && q.status = .open)
      (fun q => { q with
        status := .resumeQueued
        answerHash := d.runtimeHash spec.answer
        answerText := spec.answer }) }, ?_, rfl⟩
  simp only [DB.answerQuestion, bind_ok_iff, require_ok, expect_ok, exists_const]
  rw [htask, hwork, hqid, hqrev]
  refine ⟨hvalid, q, Table.find?_of_mem hq, hqt, t, Table.find?_of_mem ht, ⟨rfl, rfl⟩, ?_⟩
  rw [if_neg (not_not.mpr hopen)]
  simp only [DB.queueAnswer, bind_ok_iff, require_ok, exists_const]
  rw [htask, hqid]
  exact ⟨hwait, hidle, hlast, rfl⟩

theorem mayAnswer_iff (hr : d.Reachable limits s) (htext : PlainTexts d)
    (hproper : HostEventsProper s) (ht : t ∈ s.tasks) :
    .answer ∈ (s.summaryTask t).allowedActions ↔ d.MayAnswer s t.id := by
  rw [answer_offered]
  constructor
  · rintro ⟨hwait, -, hidle⟩
    obtain ⟨g, hl, hv⟩ := standing_of_reachable hr t ht (by rw [hwait]; rfl)
    obtain ⟨q, hq, hqg, hqt, hopen⟩ := hv.waiting hwait
    obtain ⟨hqid, hqrev⟩ := (posed_of_reachable hr q hq).named
    obtain ⟨hid, hrev⟩ := task_proper hr ht
    have htrim : d.trimSpace "answer" ≠ "" ∧ "answer".utf8ByteSize ≤ 32 * 1024 := by
      rw [htext.trim "answer" (List.all_eq_true.mp (by decide +kernel))]
      exact ⟨by decide +kernel, by decide +kernel⟩
    let spec : AnswerSpec := ⟨t.id, t.workRevision, q.questionId, q.questionRevision, "answer"⟩
    have hspec : spec.taskId = t.id ∧ spec.workRevision = t.workRevision := ⟨rfl, rfl⟩
    obtain ⟨s', hanswer, hcore⟩ := answerQuestion_opens ht hspec.1 hspec.2 hq rfl rfl hqt
      ⟨hid, hrev, hqid, hqrev, htrim⟩ hopen hwait hidle (by rw [hl, hqg]; rfl)
    refine ⟨_, s', _, rfl, hanswer, turns_of ht fun ht' => ?_⟩
    rw [hcore] at ht'
    obtain ⟨u, -, -, rfl⟩ | ⟨-, hne⟩ := Core.mem_enqueue.mp ht'
    · cases hwait
    · exact hne rfl
  · rintro ⟨spec, s', status, htask, hanswer, hturn⟩
    simp only [DB.answerQuestion, bind_ok_iff, require_ok, expect_ok, exists_const] at hanswer
    obtain ⟨-, q, hq, hqt, u, hu, -, h⟩ := hanswer
    obtain ⟨hum, huid⟩ := Table.find?_eq_some.mp hu
    obtain rfl : u = t := Table.eq_of_key hum ht (huid.trans htask)
    obtain ⟨hqm, -⟩ := Table.find?_eq_some.mp hq
    split at h
    · simp only [bind_ok_iff, require_ok, exists_const, Except.ok.injEq, Prod.mk.injEq] at h
      exact absurd hturn (h.2.1 ▸ not_turns)
    · rename_i hopen
      simp only [DB.queueAnswer, bind_ok_iff, require_ok, exists_const] at h
      obtain ⟨hwait, hidle, -, -⟩ := h
      refine ⟨hwait, ?_, huid ▸ hidle⟩
      simp only [State.hasOpenQuestion, List.any_eq_true, Bool.and_eq_true, decide_eq_true_eq]
      refine ⟨q, hqm, ⟨hqt.trans huid.symm, not_not.mp hopen⟩, ?_⟩
      obtain ⟨v, hv, hvid, hvr⟩ | ⟨r, hrm, hrt, hrr⟩ := (posed_of_reachable hr q hqm).revision
      · obtain rfl : v = u := Table.eq_of_key hv hum (hvid.trans (hqt.trans huid.symm))
        exact hvr.symm
      · rw [← hrr]
        exact hproper.revision r hrm u hum (huid.trans (hqt.symm.trans hrt.symm))

theorem mayResume_iff (ht : t ∈ s.tasks) :
    .resume ∈ (s.summaryTask t).allowedActions ↔ MayResume s t.id := by
  rw [resume_offered]
  constructor
  · rintro ⟨hst, hidle⟩
    refine ⟨t.workRevision, { s with toCore := s.toCore.enqueue t.id .resumeQueued }, (), ?_, ?_⟩
    · simp only [queueResume, bind_ok_iff, require_ok, expect_ok, exists_const]
      exact ⟨t, Table.find?_of_mem ht, ⟨rfl, hst⟩, hidle, trivial⟩
    · refine turns_of ht fun ht' => ?_
      obtain ⟨u, -, -, rfl⟩ | ⟨-, hne⟩ := Core.mem_enqueue.mp ht'
      · cases hst
      · exact hne rfl
  · rintro ⟨workRevision, s', r, hresume, -⟩
    simp only [queueResume, bind_ok_iff, require_ok, expect_ok, exists_const] at hresume
    obtain ⟨u, hu, ⟨-, hst⟩, hidle, -⟩ := hresume
    obtain ⟨hum, huid⟩ := Table.find?_eq_some.mp hu
    obtain rfl : u = t := Table.eq_of_key hum ht huid
    exact ⟨hst, hidle⟩

end Reviews

/-! ## Retries -/

section Retries
variable {d : DB} {limits : ConcurrencyLimits} {s s' : State} {t : Task} {commandId : String}
  {g : Segment} {a : Attempt} {r : RuntimeEvent}

/-- No attempt of the task is numbered above the one of its latest segment. -/
theorem Ranked.latest_attempt (h : Ranked s.toCore) (hl : s.latestSegment t.id = some g)
    (ha : a ∈ s.attempts) (haid : a.id = g.attemptId) :
    (∀ b ∈ s.attempts, b.taskId = t.id → b.attemptNo ≤ a.attemptNo) ∧
      s.latestAttempt t.id = some a ∧ a.taskId = t.id := by
  obtain ⟨hg, hgt, -⟩ := h.latestSegment_iff.mp hl
  obtain ⟨b, hb, hbid, hbt, -⟩ := h.numberOf g hg
  obtain rfl : b = a := Table.eq_of_key hb ha (hbid.trans haid.symm)
  cases hlast : s.latestAttempt t.id with
  | none =>
    have hnil := List.filter_eq_nil_iff.mp (List.argmax_eq_none.mp hlast) b hb
    simp [hbt, hgt] at hnil
  | some k =>
    have hk := List.argmax_mem hlast
    simp only [List.mem_filter, decide_eq_true_eq] at hk
    obtain rfl : b = k := Table.eq_of_key hb hk.1 (hbid.trans (h.latestAttempt hl hlast))
    exact ⟨fun c hc hct => latestAttempt_le (by rw [hlast]; rfl) hc hct, rfl, hk.2⟩

/-- The latest segment of a failed task has the failure on record. -/
theorem failure_of_failed (hr : d.Reachable limits s) (ht : t ∈ s.tasks)
    (hfailed : t.status = .failed) : ∃ g a r, s.latestSegment t.id = some g ∧ a ∈ s.attempts ∧
      a.id = g.attemptId ∧ a.status = .failed ∧ r ∈ s.runtimeEvents ∧ g.id = r.segmentId ∧
      s.Faults r := by
  obtain ⟨g, hl, hv⟩ := standing_of_reachable hr t ht (by rw [hfailed]; rfl)
  obtain ⟨⟨a, ha, haid, haf⟩, r, hrm, hrg, hfault⟩ := hv.failed hfailed
  exact ⟨g, a, r, hl, ha, haid, haf, hrm, hrg.symm, hfault⟩

theorem hasFailure_of_failed (hr : d.Reachable limits s) (ht : t ∈ s.tasks)
    (hfailed : t.status = .failed) : s.hasFailure t = true := by
  obtain ⟨g, a, r, hl, ha, haid, haf, hrm, hgid, hfault⟩ := failure_of_failed hr ht hfailed
  have hranked := ranked_of_reachable hr
  obtain ⟨hg, -⟩ := hranked.latestSegment_iff.mp hl
  obtain ⟨-, hlast, hat⟩ := hranked.latest_attempt hl ha haid
  have hfind : s.segments.find? r.segmentId = some g := Table.find?_eq_some.mpr ⟨hg, hgid⟩
  have hfinda : s.attempts.find? g.attemptId = some a := Table.find?_eq_some.mpr ⟨ha, haid⟩
  simp only [State.hasFailure, List.any_eq_true]
  refine ⟨r, hrm, ?_⟩
  rw [hfind, Option.any_some, hfinda, Option.any_some, hlast, Option.map_some]
  simp only [hat, haf, decide_true, Bool.and_self, Bool.true_and]
  simp only [State.failing, Bool.or_eq_true, Bool.and_eq_true, decide_eq_true_eq, List.any_eq_true]
  exact hfault.imp id fun ⟨hkind, row, hrow, hid, _, hdecision⟩ =>
    ⟨hkind, row, hrow, hid, hdecision⟩

/-- A failed task was not retried for its latest failure. -/
theorem unretried_of_failed (hr : d.Reachable limits s) (hapart : SlotsApart d s) (ht : t ∈ s.tasks)
    (hfailed : t.status = .failed) (hl : s.latestSegment t.id = some g) (hm : r ∈ s.runtimeEvents)
    (hgid : g.id = r.segmentId) (hfault : s.Faults r) :
    ∀ row ∈ s.retryDecisions, row.sourceEventId ≠ r.eventId ∧ row.actionSlot ≠ r.actionSlot := by
  have hranked := ranked_of_reachable hr
  obtain ⟨hg, hgt, -⟩ := hranked.latestSegment_iff.mp hl
  have hentry := ((logged_of_reachable hr).rows r hm).1
  have hseg : r.segmentId = r.body.segmentId := (congrArg RuntimeEvent.segmentId hentry :)
  have hmem : r.delivery ∈ s.deliveries := mem_deliveries.mpr (.inl ⟨r, hm, rfl⟩)
  have hkind : deliveryStatusOf r.body.kind = .pending := by
    obtain hk | ⟨hk, -⟩ := hfault <;> rw [hk] <;> rfl
  intro row hrow
  obtain ⟨p, e, hp, hst, hof⟩ := (effects_of_reachable hr).retries row hrow
  -- a retry of this event would have moved the task on
  have hother : p ≠ r.delivery := by
    rintro rfl
    have he : e = r.body := hp.unique (.inl ⟨r, hm, rfl, rfl⟩)
    obtain ⟨k, hk, a, ha, hkid, hka, hat, hafter⟩ := (retried_of_reachable hr).source row hrow
    have hkg : k.id = g.id :=
      hkid.trans (hof.segmentId.trans (he ▸ (hseg.symm.trans hgid.symm)))
    obtain rfl : k = g := Table.eq_of_key hk hg hkg
    obtain ⟨hmax, -, hatt⟩ := hranked.latest_attempt hl ha hka
    have hrow : row.taskId = t.id := hat.symm.trans hatt
    obtain ⟨b, hb, hbt, hlt⟩ | ⟨u, hu, hut, hqueued⟩ := hafter
    · exact absurd (hmax b hb (hbt.trans hrow)) (Nat.not_le_of_lt hlt)
    · rw [Table.eq_of_key hu ht (hut.trans hrow), hfailed] at hqueued
      cases hqueued
  refine ⟨fun hid => ?_, fun hslot => ?_⟩
  · obtain ⟨q, hq, rfl, -⟩ | ⟨q, hq, rfl, -⟩ := hp
    · obtain rfl : q = r := Table.eq_of_key hq hm (hof.eventId.symm.trans hid)
      exact hother rfl
    · exact (lodged_of_reachable hr).apart r hm hkind q hq (hst rfl)
        (hid.symm.trans hof.eventId)
  · exact hother (hapart.eq (slotted_of_reachable hr) hmem hp.mem (hof.actionSlot.symm.trans hslot))

/-- The retry of a failure, under the number its next attempt takes. -/
def State.retryOf (s : State) (t : Task) (r : RuntimeEvent) (commandId : String) : RetrySpec where
  taskId := t.id
  workRevision := t.workRevision
  eventId := r.eventId
  eventRevision := r.eventRevision
  eventHash := r.payloadHash
  actionSlot := r.actionSlot
  segmentId := r.segmentId
  nextAttemptNo := s.groupAttempts t.budgetGroupId + 1
  useNextFallback := false
  commandId := commandId

/-- The retry of a recorded failure names everything it has to. -/
theorem retryOf_valid (hr : d.Reachable limits s) (hproper : HostEventsProper s) (ht : t ∈ s.tasks)
    (ha : a ∈ s.attempts) (hat : a.taskId = t.id) (hm : r ∈ s.runtimeEvents)
    (hfresh : FreshCommand s commandId) {spec : RetrySpec} (h : s.retryOf t r commandId = spec) :
    spec.taskId ≠ "" ∧ 1 ≤ spec.workRevision ∧ spec.eventId ≠ "" ∧ 1 ≤ spec.eventRevision ∧
      validDigest spec.eventHash = true ∧ spec.actionSlot ≠ "" ∧ spec.segmentId ≠ "" ∧
      2 ≤ spec.nextAttemptNo ∧ spec.commandId ≠ "" ∧ spec.commandId.utf8ByteSize ≤ 128 := by
  subst h
  obtain ⟨hid, hrev, hslot, hseg⟩ := event_named (logged_of_reachable hr) hm
  obtain ⟨htid, hwork⟩ := task_proper hr ht
  -- the failed attempt is one of its group
  have hpos : 0 < s.groupAttempts t.budgetGroupId := by
    refine Nat.lt_of_lt_of_le ?_ (taskAttempts_le_group ht)
    exact Table.count_pos.mpr ⟨a, ha, by simp [hat]⟩
  refine ⟨htid, hwork, hid, hrev, (hproper.hash r hm).1, hslot, hseg, ?_, hfresh.named⟩
  change (2 : Int) ≤ s.groupAttempts t.budgetGroupId + 1
  omega

/-- The failure on record is a source the retry may name. -/
theorem retrySource_of_failed (hr : d.Reachable limits s) (htext : PlainTexts d)
    (hproper : HostEventsProper s) (hl : s.latestSegment t.id = some g) (ha : a ∈ s.attempts)
    (haid : a.id = g.attemptId) (haf : a.status = .failed) (hm : r ∈ s.runtimeEvents)
    (hgid : g.id = r.segmentId) (hfault : s.Faults r) :
    d.retrySource s (s.retryOf t r commandId) = .ok () := by
  have hranked := ranked_of_reachable hr
  obtain ⟨hg, hgt, -⟩ := hranked.latestSegment_iff.mp hl
  obtain ⟨-, hlast, hat⟩ := hranked.latest_attempt hl ha haid
  obtain ⟨hdigest, hlower⟩ := hproper.hash r hm
  have hsame : d.toLower r.payloadHash = r.payloadHash := htext.lower _ hdigest hlower
  have hsource : s.source r.eventId = some (r.delivery.source r.body) :=
    holds_source (p := r.delivery) (logged_of_reachable hr) (bound_of_reachable hr)
      (.inl ⟨r, hm, rfl, rfl⟩) nofun
  have hcol : r.segmentId = r.body.segmentId :=
    (congrArg RuntimeEvent.segmentId ((logged_of_reachable hr).rows r hm).1 :)
  simp only [DB.retrySource, bind_ok_iff, require_ok, expect_ok, exists_const]
  refine ⟨_, hsource, ⟨(event_task hr hm hg hgid).2.trans hgt, hcol.symm, hsame.symm, rfl, rfl⟩,
    ?_, ?_, g, Table.find?_eq_some.mpr ⟨hg, hgid⟩, a, Table.find?_eq_some.mpr ⟨ha, haid⟩, hat,
    haf, (congrArg (Option.map Attempt.attemptNo) hlast :)⟩
  · exact hfault.imp id And.left
  · intro hkind
    obtain hk | ⟨-, row, hrow⟩ := hfault
    · exact absurd (hkind.symm.trans hk) (by decide)
    · exact ⟨row, hrow⟩

/-- A retry of the latest failure is granted, as long as the group has attempts left. -/
theorem queueRetry_grants (hr : d.Reachable limits s) (htext : PlainTexts d)
    (hapart : SlotsApart d s) (hproper : HostEventsProper s) (ht : t ∈ s.tasks)
    (hfailed : t.status = .failed) (hidle : s.taskActive t.id = 0)
    (hleft : ¬ s.attemptsExhausted t.budgetGroupId t.maxAttempts)
    (hfresh : FreshCommand s commandId) :
    ∃ (spec : RetrySpec) (retries : Table RetryDecision.actionSlot) (receipt : RetryReceipt),
      spec.taskId = t.id ∧ spec.commandId = commandId ∧ spec.useNextFallback = false ∧
      d.queueRetry s spec = .ok ({ s with
        toCore := s.toCore.enqueue t.id .ready, retryDecisions := retries }, receipt) := by
  obtain ⟨g, a, r, hl, ha, haid, haf, hm, hgid, hfault⟩ := failure_of_failed hr ht hfailed
  obtain ⟨-, -, hat⟩ := (ranked_of_reachable hr).latest_attempt hl ha haid
  have hun := unretried_of_failed hr hapart ht hfailed hl hm hgid hfault
  have hslots : s.retryDecisions.Unused RetryDecision.actionSlot r.actionSlot :=
    fun row hrow => (hun row hrow).2
  have hfind : s.retryDecisions.find? (s.retryOf t r commandId).actionSlot = none :=
    Table.find?_eq_none.mpr hslots
  have hretry : d.retrySource s (s.retryOf t r commandId) = .ok () :=
    retrySource_of_failed hr htext hproper hl ha haid haf hm hgid hfault
  obtain ⟨retries, hi, -⟩ :=
    Table.insert?_isSome (a := d.retryDecision (s.retryOf t r commandId)) hslots
  refine ⟨s.retryOf t r commandId, retries,
    retryReceipt (d.retryDecision (s.retryOf t r commandId)), rfl, rfl, rfl, ?_⟩
  simp only [DB.queueRetry, bind_ok_iff, require_ok, exists_const, hfind]
  refine ⟨retryOf_valid hr hproper ht ha hat hm hfresh rfl, ?_⟩
  simp only [DB.applyRetry, bind_ok_iff, require_ok, expect_ok, exists_const]
  exact ⟨⟨fun row hrow => (hun row hrow).1, hfresh.retries⟩, t, Table.find?_of_mem ht,
    ⟨hfailed, rfl⟩, hidle, hleft, rfl, (), hretry, none, rfl, retries, hi, rfl⟩

theorem mayRetry_iff (hr : d.Reachable limits s) (htext : PlainTexts d) (hapart : SlotsApart d s)
    (hproper : HostEventsProper s) (ht : t ∈ s.tasks) (hfresh : FreshCommand s commandId) :
    .retry ∈ (s.summaryTask t).allowedActions ↔ d.MayRetry s t.id commandId := by
  rw [retry_offered]
  constructor
  · rintro ⟨hfailed, -, hidle, hleft⟩
    obtain ⟨spec, retries, receipt, htask, hcommand, hfallback, hretry⟩ :=
      queueRetry_grants hr htext hapart hproper ht hfailed hidle hleft hfresh
    refine ⟨spec, _, receipt, htask, hcommand, hfallback, hretry, turns_of ht fun ht' => ?_⟩
    obtain ⟨u, -, -, rfl⟩ | ⟨-, hne⟩ := Core.mem_enqueue.mp ht'
    · cases hfailed
    · exact hne rfl
  · rintro ⟨spec, s', receipt, htask, -, -, hretry, hturn⟩
    simp only [DB.queueRetry, bind_ok_iff, require_ok, exists_const] at hretry
    obtain ⟨-, h⟩ := hretry
    split at h
    · simp only [bind_ok_iff, require_ok, exists_const, Except.ok.injEq, Prod.mk.injEq] at h
      exact absurd hturn (h.2.1 ▸ not_turns)
    · simp only [DB.applyRetry, bind_ok_iff, require_ok, expect_ok, exists_const] at h
      obtain ⟨-, u, hu, ⟨hfailed, -⟩, hidle, hleft, -⟩ := h
      obtain ⟨hum, huid⟩ := Table.find?_eq_some.mp hu
      obtain rfl : u = t := Table.eq_of_key hum ht (huid.trans htask)
      exact ⟨hfailed, hasFailure_of_failed hr ht hfailed, huid ▸ hidle, hleft⟩

/-- A stop that is offered is accepted. -/
theorem requestStop_offered {env : Env} {reason : String} (hr : d.Reachable limits s)
    (ht : t ∈ s.tasks) (hreason : reason ≠ "")
    (hstop : s.stops.Unused StopRow.commandId (env.newId "stop"))
    (hoffered : .stop ∈ (s.summaryTask t).allowedActions) :
    ∃ r, requestStop env s t.id t.workRevision reason = .ok r := by
  obtain ⟨htid, hwork⟩ := task_proper hr ht
  have hactive : ∃ g ∈ s.segments, g.active = true ∧ g.taskId = t.id := by
    by_contra hnone
    refine (stop_offered.mp hoffered).ne' (taskActive_eq_zero.mpr fun g hg ha hid => ?_)
    exact hnone ⟨g, hg, ha, hid⟩
  obtain ⟨g, hg, ha, hgt⟩ := hactive
  have hsegment : s.activeSegment t.id = some g :=
    hgt ▸ activeSegment_eq (slots_of_reachable hr) hg ha
  have hfind : s.tasks.find? t.id = some t := Table.find?_of_mem ht
  by_cases hc : t.status.cancellable = true
  · refine ⟨({ s with toCore := s.toCore.cancel t.id }, {}), ?_⟩
    simp only [requestStop, bind_ok_iff, require_ok, expect_ok, exists_const]
    exact ⟨⟨htid, hwork, hreason⟩, t, hfind, rfl, by rw [if_pos hc]⟩
  cases hrow : s.stops.find? g.id with
  | some stop =>
    refine ⟨(s, ⟨g.hostId, stopCommand stop⟩), ?_⟩
    simp only [requestStop, bind_ok_iff, require_ok, expect_ok, exists_const]
    refine ⟨⟨htid, hwork, hreason⟩, t, hfind, rfl, ?_⟩
    rw [if_neg hc]
    simp only [bind_ok_iff, expect_ok]
    exact ⟨g, hsegment, by rw [hrow]⟩
  | none =>
    obtain ⟨stops, hi, -⟩ := Table.insert?_isSome (t := s.stops) (a := (⟨env.newId "stop", g.hostId,
      g.id, reason, env.now.stopDeadline, .pending, env.now.stamp⟩ : StopRow))
      (Table.find?_eq_none.mp hrow)
    have hins : s.insertStop env g reason = some stops := by
      rw [State.insertStop, if_pos hstop]
      exact hi
    refine ⟨({ s with toCore := s.toCore.stopSegment g.id t.id, stops := stops },
      ⟨g.hostId, ⟨env.newId "stop", g.id, reason, env.now.stopDeadline⟩⟩), ?_⟩
    simp only [requestStop, bind_ok_iff, require_ok, expect_ok, exists_const]
    refine ⟨⟨htid, hwork, hreason⟩, t, hfind, rfl, ?_⟩
    rw [if_neg hc]
    simp only [bind_ok_iff, expect_ok]
    refine ⟨g, hsegment, ?_⟩
    rw [hrow]
    simp only [bind_ok_iff, expect_ok]
    exact ⟨stops, hins, rfl⟩

end Retries

theorem summarizeRun_tasks {d : DB} {s : State} {taskId controller token : String}
    {summary : RunSummary} (h : d.summarizeRun s taskId controller token = .ok summary)
    (item : SummaryTask) : item ∈ summary.tasks ↔
      ∃ t ∈ s.tasks, t.runId = summary.runId ∧ s.summaryTask t = item := by
  simp only [DB.summarizeRun, bind_ok_iff, Except.ok.injEq] at h
  obtain ⟨run, -, rfl⟩ := h
  simp only [List.mem_map, List.mem_mergeSort, List.mem_filter, decide_eq_true_eq, and_assoc]
  rfl

/-- The summary of a run has an item for every task of the run, and offers of each exactly what
the operations would accept and act on. -/
theorem summary_truthful (d : DB) (limits : ConcurrencyLimits) {s : State}
    (hr : d.Reachable limits s) (htext : PlainTexts d) (hapart : SlotsApart d s)
    (hproper : HostEventsProper s) {taskId controller token : String} {summary : RunSummary}
    (h : d.summarizeRun s taskId controller token = .ok summary) :
    (∀ t ∈ s.tasks, t.runId = summary.runId → ∃ item ∈ summary.tasks, item.taskId = t.id) ∧
    ∀ item ∈ summary.tasks,
      (∀ commandId, FreshCommand s commandId →
        (.accept ∈ item.allowedActions ↔ d.MayReview s item.taskId commandId)) ∧
      (.answer ∈ item.allowedActions ↔ d.MayAnswer s item.taskId) ∧
      (.resume ∈ item.allowedActions ↔ MayResume s item.taskId) ∧
      (∀ commandId, FreshCommand s commandId →
        (.retry ∈ item.allowedActions ↔ d.MayRetry s item.taskId commandId)) ∧
      ∀ env reason, reason ≠ "" → s.stops.Unused StopRow.commandId (env.newId "stop") →
        .stop ∈ item.allowedActions →
          ∃ r, requestStop env s item.taskId item.workRevision reason = .ok r := by
  refine ⟨fun t ht hrun => ?_, fun item hitem => ?_⟩
  · exact ⟨_, (summarizeRun_tasks h _).mpr ⟨t, ht, hrun, rfl⟩, rfl⟩
  obtain ⟨t, ht, -, rfl⟩ := (summarizeRun_tasks h item).mp hitem
  exact ⟨fun _ hfresh => mayReview_iff hr htext hapart hproper ht hfresh,
    mayAnswer_iff hr htext hproper ht, mayResume_iff ht,
    fun _ hfresh => mayRetry_iff hr htext hapart hproper ht hfresh,
    fun _ _ hreason hstop => requestStop_offered hr ht hreason hstop⟩

/-- A task with two attempts, the first of which failed. -/
def failedOps : List Op :=
  toyStart [toyTask "a" 2 []] ++
    [toyClaim 11, toyCommit "a" 11 1 .failed, toyCommit "a" 11 2 .exited]

/-- The summary offers its retry, and it can be had. -/
theorem failed_task_retried :
    toyDB.MayRetry (toyDB.run (State.fresh {}) failedOps) "a" "command" := by
  have hfacts : ((toyDB.validateTaskOwner (toyDB.run (State.fresh {}) failedOps) "a" "thread"
        "control-token-10").toOption.map fun run =>
          ((toyDB.run (State.fresh {}) failedOps).tasks.rows.filter
            (fun t => t.runId = run.id)).map (toyDB.run (State.fresh {}) failedOps).summaryTask) =
        some [⟨"a", .failed, .blocked, 1, 0, [.status, .collect, .retry]⟩] ∧
      (∀ p ∈ (toyDB.run (State.fresh {}) failedOps).deliveries,
        ∀ p' ∈ (toyDB.run (State.fresh {}) failedOps).deliveries,
          (toyDB.actionSlot p.producer p.eventId = toyDB.actionSlot p'.producer p'.eventId →
            p.producer = p'.producer ∧ p.eventId = p'.eventId) ∧
          (p.producer = p'.producer → p.fromReport = p'.fromReport)) ∧
      (∀ r ∈ (toyDB.run (State.fresh {}) failedOps).runtimeEvents.rows,
        (∀ t ∈ (toyDB.run (State.fresh {}) failedOps).tasks.rows, t.id = r.body.taskId →
          r.body.workRevision = t.workRevision) ∧
        validDigest r.payloadHash = true ∧
          (r.payloadHash.toList.all fun c => c.isUpper = false) = true) ∧
      (toyDB.run (State.fresh {}) failedOps).reviewDecisions.rows = [] ∧
      (toyDB.run (State.fresh {}) failedOps).retryDecisions.rows = [] := by decide +kernel
  have hreach : toyDB.Reachable {} (toyDB.run (State.fresh {}) failedOps) := ⟨_, rfl⟩
  revert hfacts hreach
  generalize toyDB.run (State.fresh {}) failedOps = s
  rintro ⟨hsummary, hapart, hproper, hreviews, hretries⟩ hreach
  cases hown : toyDB.validateTaskOwner s "a" "thread" "control-token-10" with
  | error code =>
    rw [hown] at hsummary
    cases hsummary
  | ok run =>
    rw [hown] at hsummary
    have hitems : (s.tasks.rows.filter (fun t => t.runId = run.id)).map s.summaryTask =
        [⟨"a", .failed, .blocked, 1, 0, [.status, .collect, .retry]⟩] := Option.some.inj hsummary
    obtain ⟨t, hrow, hitem⟩ := List.map_eq_singleton_iff.mp hitems
    obtain ⟨summary, hx, htasks⟩ : ∃ summary, toyDB.summarizeRun s "a" "thread"
        "control-token-10" = .ok summary ∧ summary.tasks = [s.summaryTask t] := by
      refine ⟨_, by rw [DB.summarizeRun, hown]; rfl, ?_⟩
      simp only [hrow, List.mergeSort_singleton, List.map_cons, List.map_nil]
    rw [hitem] at htasks
    have hfresh : FreshCommand s "command" := by
      refine ⟨⟨by decide, by decide⟩, fun row hrow => ?_, fun row hrow => ?_⟩
      · rw [hreviews] at hrow
        cases hrow
      · rw [hretries] at hrow
        cases hrow
    have hitem := (summary_truthful toyDB {} hreach ⟨fun _ _ _ => rfl, fun _ _ => rfl⟩
      ⟨fun p hp p' hp' => (hapart p hp p' hp').1, fun p hp p' hp' => (hapart p hp p' hp').2⟩
      ⟨fun r hr => (hproper r hr).1, fun r hr => ⟨(hproper r hr).2.1, fun c hc =>
        decide_eq_true_eq.mp (List.all_eq_true.mp (hproper r hr).2.2 c hc)⟩⟩ hx).2
      ⟨"a", .failed, .blocked, 1, 0, [.status, .collect, .retry]⟩ (by rw [htasks]; simp)
    exact (hitem.2.2.2.1 "command" hfresh).mp (by decide)

end Orchestrator.Store
