import Orchestrator.Events.Answers

/-!
# An answer is delivered once

From the answer on, the row of a question goes one way: queued with its task,
started with the segment that carries it, resolved when that segment exits.
-/
namespace Orchestrator.Store
open Library

/-- The command of an accepted claim. -/
def DB.claimed (d : DB) (s : State) : Op → Option LaunchCommand
  | .claimReady env hostId epoch slots =>
    (d.claimReady env s hostId epoch slots).toOption.map Prod.snd
  | _ => none

/-- The commands claimed along a run, in order. -/
def DB.claims (d : DB) (s : State) : List Op → List LaunchCommand
  | [] => []
  | op :: ops => (d.claimed s op).toList ++ d.claims (d.step s op) ops

/-- The command carries the question and its answer. -/
structure Question.CarriedBy (q : Question) (cmd : LaunchCommand) : Prop where
  question : cmd.questionId = q.questionId
  revision : cmd.questionRevision = q.questionRevision
  answer : cmd.answer = q.answerText
  sessionKind : cmd.sessionKind = q.sessionKind
  sessionId : cmd.sessionId = q.sessionId
  task : cmd.taskId = q.taskId
  attempt : cmd.attemptId = q.attemptId

def Question.resolved (q : Question) : Question := { q with status := .resolved }

/-- The answer is with the segment, or the segment has exited. -/
def State.Sent (s : State) (q : Question) (segmentId : String) : Prop :=
  (q.started ∈ s.questions ∧ ∃ g ∈ s.segments, g.id = segmentId ∧ g.active = true ∧
    g.taskId = q.taskId ∧ g.attemptId = q.attemptId) ∨ q.resolved ∈ s.questions

section Steps
variable {d : DB} {limits : ConcurrencyLimits} {op : Op} {s s' : State} {q : Question}
  {cmd : LaunchCommand} {segmentId : String}

theorem claimed_iff : d.claimed s op = some cmd ↔ ∃ env hostId epoch slots t place s',
    op = .claimReady env hostId epoch slots ∧ d.exec s op = .ok s' ∧
      Claimed d env s hostId epoch slots t place s' cmd := by
  constructor
  · intro h
    cases op <;> simp only [DB.claimed, reduceCtorEq] at h
    obtain ⟨⟨s', cmd'⟩, hr, rfl⟩ := Option.map_eq_some_iff.mp h
    have hclaim := toOption_eq_some.mp hr
    obtain ⟨t, place, hc⟩ := claimReady_iff.mp hclaim
    exact ⟨_, _, _, _, t, place, s', rfl, committed_ok.mpr ⟨_, hclaim⟩, hc⟩
  · rintro ⟨env, hostId, epoch, slots, t, place, s', rfl, -, hc⟩
    have hclaim := claimReady_iff.mpr ⟨t, place, hc⟩
    rw [DB.claimed, hclaim]
    rfl

/-- What a claim carries is the answer its task has queued. -/
theorem Claimed.carried {env : Env} {hostId : String} {epoch : Nat} {slots : Int} {t : Task}
    {place : Placement} (hc : Claimed d env s hostId epoch slots t place s' cmd) :
    (∀ q, s.resumedQuestion t place = some q → q.CarriedBy cmd) ∧
      (cmd.questionId ≠ "" → ∃ q, s.resumedQuestion t place = some q ∧
        q.questionId = cmd.questionId) := by
  obtain ⟨c₁, c₂, capabilities, h₁, h₂, -, rfl, rfl⟩ := launch_cases hc.launched
  constructor
  · intro q hq
    obtain ⟨-, htask, hattempt, -⟩ := resumedQuestion_spec hq
    constructor <;> simp only [launchCommand, hq, Option.map_some, Option.getD_some]
    · exact htask.symm
    · exact hattempt.symm
  · intro hne
    cases hq : s.resumedQuestion t place with
    | none => simp [launchCommand, hq] at hne
    | some q => exact ⟨q, rfl, by simp [launchCommand]⟩

/-- A claim that carries a question finds it queued, and is one of its task. -/
theorem claimed_queued (h : d.claimed s op = some cmd) (hne : cmd.questionId ≠ "") :
    ∃ q ∈ s.questions, q.status = .resumeQueued ∧ q.CarriedBy cmd := by
  obtain ⟨env, hostId, epoch, slots, t, place, s', -, -, hc⟩ := claimed_iff.mp h
  obtain ⟨q, hq, -⟩ := hc.carried.2 hne
  obtain ⟨hm, -, -, hst⟩ := resumedQuestion_spec hq
  exact ⟨q, hm, hst, hc.carried.1 q hq⟩

/-- No operation unasks a question that was answered, but the exit of its segment. -/
theorem Effect.keeps_question {x : Option String} (he : Effect d op x s s')
    (hs : Slots d.toPlatform s.toCore) (hq : q ∈ s.questions) (hqs : q.status ≠ .open) :
    q ∈ s'.questions ∨
      (∃ t place env hostId epoch slots, op = .claimReady env hostId epoch slots ∧
        s'.questions = startResume s.questions (s.resumedQuestion t place)) ∨
      ∃ e g, g ∈ s.segments ∧ g.active = true ∧ Exits op e g ∧
        s'.questions = resolveRounds s.questions e := by
  cases he.inquiry with
  | idle h => exact .inl (h ▸ hq)
  | resolve hg ha he _ h => exact .inr (.inr ⟨_, _, hg, ha, he, h⟩)
  | spare _ h =>
    cases h with
    | keep h => exact .inl (h ▸ hq)
    | ask _ _ _ _ _ h => exact .inl ((Table.mem_insert h).mpr (.inl hq))
    | answer _ h =>
      refine .inl (h ▸ Table.mem_update_of_not (h := by intro _; rfl) hq ?_)
      simp [hqs]
    | start ht hc hg ha htask _ h =>
      obtain ⟨env, hostId, epoch, slots, hop⟩ := he.step.claim_of_started hs ht hc hg ha htask
      exact .inr (.inl ⟨_, _, env, hostId, epoch, slots, hop, h⟩)

theorem resolveRounds_keeps {questions : Table Question.questionId} {e : Event}
    (hq : q ∈ questions) (hqs : q.status ≠ .resumeStarted) : q ∈ resolveRounds questions e := by
  refine Table.mem_update_of_not (h := by intro _; rfl) hq ?_
  simp [hqs]

theorem resolveRounds_resolves {questions : Table Question.questionId} {e : Event}
    (hq : q.started ∈ questions) (htask : e.taskId = q.taskId)
    (hattempt : e.attemptId = q.attemptId) : q.resolved ∈ resolveRounds questions e := by
  refine Table.mem_update.mpr ⟨_, hq, ?_⟩
  rw [Table.patch_pos (by simp [Question.started, htask, hattempt])]
  rfl

theorem startResume_spares {questions : Table Question.questionId} {carried : Option Question}
    (hq : q ∈ questions) (hqs : q.status ≠ .resumeQueued) : q ∈ startResume questions carried := by
  refine Table.mem_update_of_not (h := by intro _; rfl) hq ?_
  simp [hqs]

/-- A queued answer is sent by the next claim of its task. -/
theorem queued_step (op : Op) (hr : d.Reachable limits s) (hq : q ∈ s.questions)
    (hqs : q.status = .resumeQueued) :
    (q ∈ (d.step s op).questions ∧ ∀ cmd, d.claimed s op = some cmd → cmd.taskId ≠ q.taskId) ∨
      ∃ cmd, d.claimed s op = some cmd ∧ q.CarriedBy cmd ∧ (d.step s op).Sent q cmd.segmentId := by
  have hopen : q.status ≠ .open := by rw [hqs]; simp
  have hslots := slots_of_reachable hr
  cases hcl : d.claimed s op with
  | none =>
    refine .inl ⟨step_induct (P := fun s' : State => q ∈ s'.questions) hq fun s' hx => ?_, nofun⟩
    have he := exec_effect (bound_of_reachable hr) hx
    obtain hm | ⟨t, place, env, hostId, epoch, slots, rfl, -⟩ | ⟨e, k, hk, hka, hexit, heq⟩ :=
      he.keeps_question hslots hq hopen
    · exact hm
    · obtain ⟨cmd, hclaim⟩ := committed_ok.mp hx
      simp [DB.claimed, hclaim, Except.toOption] at hcl
    · exact heq ▸ resolveRounds_keeps hq (by simp [hqs])
  | some cmd =>
    obtain ⟨env, hostId, epoch, slots, t, place, s', -, hx, hc⟩ := claimed_iff.mp hcl
    rw [step_of_exec hx]
    obtain ⟨ht, hclaimable, htask, -, hquestions, -, -, -, g, hg, hgid, ha, hgt, hga⟩ := hc.tasks
    by_cases hid : q.taskId = t.id
    · obtain ⟨hres, hplace⟩ := (parked_of_reachable hr).resumed (ranked_of_reachable hr) ht
        hclaimable hc.placed hq hid hqs
      have hcarried := hc.carried.1 q hres
      refine .inr ⟨cmd, rfl, hcarried, .inl ⟨?_, ?_⟩⟩
      · rw [hquestions, hres]
        exact startResume_starts hq hqs
      · exact ⟨g, hg, hgid, ha, hgt.trans hid.symm, hga.trans hplace.symm⟩
    · refine .inl ⟨?_, fun cmd' h => ?_⟩
      · rw [hquestions]
        refine startResume_keeps hq fun hres => hid ?_
        exact (resumedQuestion_spec (startResume_selects hq hres)).2.1
      · cases h
        rw [htask]
        exact fun h => hid h.symm

/-- What is with its segment stays there until the segment exits. -/
theorem sent_step (hr : d.Reachable limits s) (h : s.Sent q segmentId) :
    (d.step s op).Sent q segmentId := by
  refine step_induct (P := fun s' => s'.Sent q segmentId) h fun s' hx => ?_
  have he := exec_effect (bound_of_reachable hr) hx
  have hslots := slots_of_reachable hr
  rcases h with ⟨hq, g, hg, hid, ha, htask, hattempt⟩ | hq
  · obtain ⟨g', hg', hst, ha'⟩ | ⟨e, hexit⟩ := he.step.active hg ha
    · have hrunning : ∃ g ∈ s'.segments, g.id = segmentId ∧ g.active = true ∧
          g.taskId = q.taskId ∧ g.attemptId = q.attemptId :=
        ⟨g', hg', (Segment.static_id hst).trans hid, ha', (Segment.static_taskId hst).trans htask,
          (Segment.static_attemptId hst).trans hattempt⟩
      obtain hm | ⟨t, place, _, _, _, _, -, heq⟩ | ⟨e, k, hk, hka, -, heq⟩ :=
        he.keeps_question hslots hq (by simp [Question.started])
      · exact .inl ⟨hm, hrunning⟩
      · exact .inl ⟨heq ▸ startResume_spares hq (by simp [Question.started]), hrunning⟩
      · by_cases hsel : e.taskId = q.taskId ∧ e.attemptId = q.attemptId
        · exact .inr (heq ▸ resolveRounds_resolves hq hsel.1 hsel.2)
        · refine .inl ⟨heq ▸ Table.mem_update_of_not (h := by intro _; rfl) hq ?_, hrunning⟩
          by_contra hx
          simp only [Bool.not_eq_false, Bool.and_eq_true, decide_eq_true_eq] at hx
          exact hsel ⟨hx.1.1.symm, hx.1.2.symm⟩
    · -- the segment exits, and its round is resolved
      cases he.inquiry with
      | idle h => subst h; exact .inl ⟨hq, g, hg, hid, ha, htask, hattempt⟩
      | spare hop => rw [hop e g hexit hg] at ha; cases ha
      | resolve _ _ hexit' _ heq =>
        obtain ⟨he₁, -, -, h2, h3⟩ := hexit
        cases Option.some.inj (he₁.symm.trans hexit'.1)
        exact .inr (heq ▸ resolveRounds_resolves hq (h2.trans htask) (h3.trans hattempt))
  · refine .inr ?_
    obtain hm | ⟨t, place, _, _, _, _, -, heq⟩ | ⟨e, k, hk, hka, hexit, heq⟩ :=
      he.keeps_question hslots hq (by simp [Question.resolved])
    · exact hm
    · exact heq ▸ startResume_spares hq (by simp [Question.resolved])
    · exact heq ▸ resolveRounds_keeps hq (by simp [Question.resolved])

theorem State.Sent.status (h : s.Sent q segmentId) {r : Question} (hr : r ∈ s.questions)
    (hid : r.questionId = q.questionId) : r.status = .resumeStarted ∨ r.status = .resolved := by
  rcases h with ⟨hq, -⟩ | hq
  · rw [Table.eq_of_key hr hq hid]
    exact .inl rfl
  · rw [Table.eq_of_key hr hq hid]
    exact .inr rfl

end Steps

/-! ## Runs -/

section Runs
variable {d : DB} {limits : ConcurrencyLimits} {s : State} {q : Question} {segmentId : String}

/-- Nothing is claimed with an answer that was sent. -/
theorem sent_run (hr : d.Reachable limits s) (h : s.Sent q segmentId) (hne : q.questionId ≠ "")
    (ops : List Op) : (∀ cmd ∈ d.claims s ops, cmd.questionId ≠ q.questionId) ∧
      (d.run s ops).Sent q segmentId := by
  induction ops generalizing s with
  | nil => exact ⟨fun _ hc => absurd hc List.not_mem_nil, h⟩
  | cons op ops ih =>
    obtain ⟨hrest, hend⟩ := ih (reachable_step op hr) (sent_step hr h)
    refine ⟨fun cmd hcmd hid => ?_, hend⟩
    rcases List.mem_append.mp hcmd with hnow | hlater
    · obtain ⟨r, hrm, hrs, hcarried⟩ :=
        claimed_queued (Option.mem_toList.mp hnow) (by rwa [hid])
      rcases h.status hrm (hcarried.question.symm.trans hid) with hst | hst <;>
        · rw [hrs] at hst; cases hst
    · exact hrest cmd hlater hid

/-- A queued answer goes with the first claim of its task, and with no other. -/
theorem queued_run (hr : d.Reachable limits s) (hq : q ∈ s.questions)
    (hqs : q.status = .resumeQueued) (hne : q.questionId ≠ "") (ops : List Op) :
    (d.claims s ops).filter (fun c => c.questionId = q.questionId) =
        ((d.claims s ops).find? (fun c => c.taskId = q.taskId)).toList ∧
      (∀ cmd ∈ d.claims s ops, cmd.questionId = q.questionId → q.CarriedBy cmd) ∧
      (q ∈ (d.run s ops).questions ∨ ∃ cmd ∈ d.claims s ops, cmd.questionId = q.questionId ∧
        (d.run s ops).Sent q cmd.segmentId) := by
  induction ops generalizing s with
  | nil => exact ⟨rfl, fun _ hc => absurd hc List.not_mem_nil, .inl hq⟩
  | cons op ops ih =>
    have hr' := reachable_step op hr
    obtain ⟨hkeep, hother⟩ | ⟨cmd, hcl, hcarried, hsent⟩ := queued_step op hr hq hqs
    · obtain ⟨hfilter, hall, hend⟩ := ih hr' hkeep
      have hskip : ∀ cmd, d.claimed s op = some cmd → cmd.questionId ≠ q.questionId := by
        intro cmd hcl hid
        obtain ⟨r, hrm, -, hcarried⟩ := claimed_queued hcl (by rwa [hid])
        obtain rfl : r = q := Table.eq_of_key hrm hq (hcarried.question.symm.trans hid)
        exact hother cmd hcl hcarried.task
      refine ⟨?_, fun cmd hcmd hid => ?_, hend.imp_right fun ⟨cmd, hm, hx⟩ =>
        ⟨cmd, List.mem_append_right _ hm, hx⟩⟩
      · cases hcl : d.claimed s op with
        | none => simpa [DB.claims, hcl] using hfilter
        | some cmd =>
          simp only [DB.claims, hcl, Option.toList_some, List.singleton_append, List.filter_cons,
            List.find?_cons, decide_eq_true_eq, if_neg (hskip cmd hcl),
            decide_eq_false (hother cmd hcl)]
          exact hfilter
      · rcases List.mem_append.mp hcmd with hnow | hlater
        · exact absurd hid (hskip cmd (Option.mem_toList.mp hnow))
        · exact hall cmd hlater hid
    · obtain ⟨hnone, hend⟩ := sent_run hr' hsent hne ops
      have hclaims : d.claims s (op :: ops) = cmd :: d.claims (d.step s op) ops := by
        rw [DB.claims, hcl]; rfl
      rw [hclaims]
      refine ⟨?_, fun c hc hid => ?_, .inr ⟨cmd, List.mem_cons_self, hcarried.question, hend⟩⟩
      · have hnil : (d.claims (d.step s op) ops).filter
          (fun c => c.questionId = q.questionId) = [] :=
          List.filter_eq_nil_iff.mpr fun c hc => by simpa using hnone c hc
        simp [hcarried.question, hcarried.task, hnil]
      · rcases List.mem_cons.mp hc with rfl | hc
        · exact hcarried
        · exact absurd hid (hnone c hc)

/-- A question that a claim carries was answered before, and stays so. -/
theorem claims_sent (hr : d.Reachable limits s) (ops : List Op) {cmd : LaunchCommand}
    (hc : cmd ∈ d.claims s ops) (hne : cmd.questionId ≠ "") :
    ∃ q, q.questionId = cmd.questionId ∧ (d.run s ops).Sent q cmd.segmentId := by
  induction ops generalizing s with
  | nil => cases hc
  | cons op ops ih =>
    rcases List.mem_append.mp hc with hnow | hlater
    · have hcl := Option.mem_toList.mp hnow
      obtain ⟨q, hq, hqs, hcarried⟩ := claimed_queued hcl hne
      obtain ⟨-, hother⟩ | ⟨cmd', hcl', hcarried', hsent⟩ := queued_step op hr hq hqs
      · exact absurd hcarried.task (hother cmd hcl)
      · obtain rfl : cmd = cmd' := Option.some.inj (hcl.symm.trans hcl')
        refine ⟨q, hcarried.question.symm, ?_⟩
        exact (sent_run (reachable_step op hr) hsent (hcarried.question ▸ hne) ops).2
    · exact ih (reachable_step op hr) hlater

/-- A claimed command is what its rows make up, until its segment exits. -/
theorem claims_pending (hr : d.Reachable limits s) (ops : List Op) {cmd : LaunchCommand}
    (hc : cmd ∈ d.claims s ops) : ∀ g ∈ (d.run s ops).segments, g.id = cmd.segmentId →
      g.active = true → (d.run s ops).pendingCommand g =
        .ok { cmd with executionEpoch := g.executionEpoch } := by
  induction ops generalizing s with
  | nil => cases hc
  | cons op ops ih =>
    rcases List.mem_append.mp hc with hnow | hlater
    · obtain ⟨env, hostId, epoch, slots, t, place, s', -, hx, hclaimed⟩ :=
        claimed_iff.mp (Option.mem_toList.mp hnow)
      have hr' : d.Reachable limits s' := step_of_exec hx ▸ reachable_step op hr
      obtain ⟨k, hk, hkid, hcmd⟩ := hclaimed.pendingCommand (Rounds.reachable hr)
        (slots_of_reachable hr) (paired_of_reachable hr')
      intro g hg hid ha
      have hrun : d.run s (op :: ops) = d.run s' ops := by
        rw [← step_of_exec hx]; rfl
      rw [hrun] at hg ⊢
      exact (pendingCommand_run hr' hk hcmd ops g hg (hid.trans hkid.symm) ha).2
    · exact ih (reachable_step op hr) hlater

/-- A question that is sent again has its segment still to be launched. -/
theorem resent_started {hostId : String} {epoch : Nat} {s' : State}
    {commands : List LaunchCommand} (h : pendingLaunches s hostId epoch = .ok (s', commands))
    {c : LaunchCommand} (hc : c ∈ commands) (hne : c.questionId ≠ "") :
    ∃ q ∈ s.questions, q.questionId = c.questionId ∧ q.status = .resumeStarted ∧
      ∃ g ∈ s.segments, g.id = c.segmentId ∧ g.active = true ∧ g.taskId = q.taskId ∧
        g.attemptId = q.attemptId := by
  obtain ⟨g, hg, hst, hid, cmd, hcmd, rfl⟩ := pendingLaunches_sends h hc
  obtain ⟨t, ht, cap, -, rfl⟩ := pendingCommand_iff.mp hcmd
  obtain ⟨-, htid⟩ := Table.find?_eq_some.mp ht
  cases hl : s.latestQuestion t.id g.attemptId .resumeStarted with
  | none => simp [launchCommand, hl] at hne
  | some q =>
    obtain ⟨hq, htask, hattempt, hqs⟩ := latestQuestion_spec hl
    refine ⟨q, hq, by simp [launchCommand], hqs, g, hg, hid, ?_, htid.symm.trans htask.symm,
      hattempt.symm⟩
    rw [Segment.active, hst]
    rfl

theorem run_grows (hr : d.Reachable limits s) (ops : List Op) :
    Grows s.toCore (d.run s ops).toCore ∧ d.Reachable limits (d.run s ops) := by
  refine run_invariant (I := fun s' : State => Grows s.toCore s'.toCore ∧ d.Reachable limits s')
    ⟨.refl _, hr⟩ fun s' op ⟨hg, hr'⟩ => ⟨?_, reachable_step op hr'⟩
  exact step_induct (P := fun s'' : State => Grows s.toCore s''.toCore) hg fun _ hx =>
    hg.trans (exec_effect (bound_of_reachable hr') hx).step.grows

end Runs

/-! ## The answer -/

/-- What becomes of the answer `spec` to the question `q` in the runs from a state. -/
structure Delivered (d : DB) (s : State) (q : Question) (spec : AnswerSpec) : Prop where
  once : ∀ ops, (d.claims s ops).filter (fun c => c.questionId = spec.questionId) =
    ((d.claims s ops).find? (fun c => c.taskId = spec.taskId)).toList
  carried : ∀ ops, ∀ cmd ∈ d.claims s ops, cmd.questionId = spec.questionId →
    cmd.questionRevision = spec.questionRevision ∧ cmd.answer = spec.answer ∧
      cmd.sessionKind = q.sessionKind ∧ cmd.sessionId = q.sessionId ∧
      cmd.taskId = spec.taskId ∧ cmd.attemptId = q.attemptId
  resent : ∀ ops hostId epoch s' commands,
    pendingLaunches (d.run s ops) hostId epoch = .ok (s', commands) → ∀ c ∈ commands,
      (c.questionId = spec.questionId → ∃ cmd ∈ d.claims s ops,
        cmd.questionId = spec.questionId ∧ c.segmentId = cmd.segmentId) ∧
      ∀ cmd ∈ d.claims s ops, c.segmentId = cmd.segmentId →
        c = { cmd with executionEpoch := epoch }
  repeated : ∀ ops, ∃ status, d.answerQuestion (d.run s ops) spec = .ok (d.run s ops, status)
  differing : ∀ ops other, other.questionId = spec.questionId → other.answer ≠ spec.answer →
    (d.runtimeHash other.answer = d.runtimeHash spec.answer → other.answer = spec.answer) →
      ∃ e, d.answerQuestion (d.run s ops) other = .error e

section Answer
variable {d : DB} {limits : ConcurrencyLimits} {s s' : State} {q : Question} {spec : AnswerSpec}

/-- The question once it is answered. -/
def DB.answered (d : DB) (q : Question) (spec : AnswerSpec) : Question :=
  { q with
    status := .resumeQueued
    answerHash := d.runtimeHash spec.answer
    answerText := spec.answer }

/-- The first answer to a question is stored with it. -/
theorem answerQuestion_open {status : QuestionStatus} (hq : q ∈ s.questions)
    (hid : q.questionId = spec.questionId) (hopen : q.status = .open)
    (h : d.answerQuestion s spec = .ok (s', status)) :
    q.taskId = spec.taskId ∧ q.questionRevision = spec.questionRevision ∧
      (∃ t ∈ s'.tasks, t.id = spec.taskId ∧ t.workRevision = spec.workRevision) ∧
      d.answered q spec ∈ s'.questions := by
  simp only [DB.answerQuestion, bind_ok_iff, require_ok, expect_ok, exists_const] at h
  obtain ⟨-, r, hr, htask, t, ht, ⟨hrev, hqrev⟩, h⟩ := h
  obtain ⟨hrm, hrid⟩ := Table.find?_eq_some.mp hr
  obtain ⟨htm, htid⟩ := Table.find?_eq_some.mp ht
  obtain rfl : r = q := Table.eq_of_key hrm hq (hrid.trans hid.symm)
  rw [if_neg (not_not.mpr hopen)] at h
  simp only [DB.queueAnswer, bind_ok_iff, require_ok, exists_const, Except.ok.injEq,
    Prod.mk.injEq] at h
  obtain ⟨-, -, -, rfl, -⟩ := h
  refine ⟨htask, hqrev, ⟨_, Core.mem_enqueue.mpr (.inl ⟨t, htm, htid, rfl⟩), htid, hrev⟩, ?_⟩
  refine (Table.mem_update (h := by intro _; rfl)).mpr ⟨r, hrm, ?_⟩
  rw [Table.patch_pos (by simp [hid, hopen])]
  rfl

/-- An answered question is answered again by the answer it has, which changes nothing, and
by no answer that is told apart from it. -/
theorem answerQuestion_answered (hq : q ∈ s.questions) (hopen : q.status ≠ .open)
    (hid : q.questionId = spec.questionId) :
    (∀ r, d.answerQuestion s spec = .ok r → q.answerHash = d.runtimeHash spec.answer) ∧
      (q.answerHash = d.runtimeHash spec.answer → q.taskId = spec.taskId →
        q.questionRevision = spec.questionRevision →
        (spec.taskId ≠ "" ∧ 1 ≤ spec.workRevision ∧ spec.questionId ≠ "" ∧
          1 ≤ spec.questionRevision ∧ d.trimSpace spec.answer ≠ "" ∧
          spec.answer.utf8ByteSize ≤ 32 * 1024) →
        (∃ t ∈ s.tasks, t.id = spec.taskId ∧ t.workRevision = spec.workRevision) →
        d.answerQuestion s spec = .ok (s, q.status)) := by
  constructor
  · intro r h
    simp only [DB.answerQuestion, bind_ok_iff, require_ok, expect_ok, exists_const] at h
    obtain ⟨-, r', hr, -, t, -, -, h⟩ := h
    obtain ⟨hrm, hrid⟩ := Table.find?_eq_some.mp hr
    obtain rfl : r' = q := Table.eq_of_key hrm hq (hrid.trans hid.symm)
    rw [if_pos hopen, bind_ok_iff] at h
    obtain ⟨_, hhash, -⟩ := h
    exact require_ok.mp hhash
  · rintro hhash htask hrev hvalid ⟨t, ht, htid, htrev⟩
    simp only [DB.answerQuestion, bind_ok_iff, require_ok, expect_ok, exists_const]
    refine ⟨hvalid, q, Table.find?_eq_some.mpr ⟨hq, hid⟩, htask, t,
      Table.find?_eq_some.mpr ⟨ht, htid⟩, ⟨htrev, hrev⟩, ?_⟩
    rw [if_pos hopen, bind_ok_iff]
    exact ⟨(), require_ok.mpr hhash, rfl⟩

/-- The row of a queued answer keeps what was answered. -/
theorem queued_row (hr : d.Reachable limits s) (hq : q ∈ s.questions)
    (hqs : q.status = .resumeQueued) (hne : q.questionId ≠ "") (ops : List Op) :
    ∃ r ∈ (d.run s ops).questions, r.status ≠ .open ∧ r.questionId = q.questionId ∧
      r.taskId = q.taskId ∧ r.questionRevision = q.questionRevision ∧
      r.answerHash = q.answerHash := by
  obtain hend | ⟨cmd, -, -, ⟨hend, -⟩ | hend⟩ := (queued_run hr hq hqs hne ops).2.2
  · exact ⟨q, hend, by rw [hqs]; simp, rfl, rfl, rfl, rfl⟩
  · exact ⟨q.started, hend, by simp [Question.started], rfl, rfl, rfl, rfl⟩
  · exact ⟨q.resolved, hend, by simp [Question.resolved], rfl, rfl, rfl, rfl⟩

theorem delivered_of_answered (hr : d.Reachable limits s)
    (hq : d.answered q spec ∈ s.questions) (hid : q.questionId = spec.questionId)
    (htask : q.taskId = spec.taskId) (hrev : q.questionRevision = spec.questionRevision)
    (ht : ∃ t ∈ s.tasks, t.id = spec.taskId ∧ t.workRevision = spec.workRevision)
    (hvalid : spec.taskId ≠ "" ∧ 1 ≤ spec.workRevision ∧ spec.questionId ≠ "" ∧
      1 ≤ spec.questionRevision ∧ d.trimSpace spec.answer ≠ "" ∧
      spec.answer.utf8ByteSize ≤ 32 * 1024) : Delivered d s q spec := by
  have hne : (d.answered q spec).questionId ≠ "" := fun h => hvalid.2.2.1 (hid.symm.trans h)
  have hrun := queued_run hr hq rfl hne
  refine ⟨fun ops => ?_, fun ops cmd hc hcid => ?_, fun ops hostId epoch s' commands h c hc => ?_,
    fun ops => ?_, fun ops other hother hdiff hhash => ?_⟩
  · have := (hrun ops).1
    simpa only [DB.answered, hid, htask] using this
  · have := (hrun ops).2.1 cmd hc (hcid.trans hid.symm)
    exact ⟨this.revision.trans hrev, this.answer, this.sessionKind, this.sessionId,
      this.task.trans htask, this.attempt⟩
  · obtain ⟨hgrows, hr'⟩ := run_grows hr ops
    refine ⟨fun hcid => ?_, fun cmd hcmd hseg => ?_⟩
    · obtain ⟨r, hrm, hrid, hrs, g, hg, hgid, ha, hgt, -⟩ :=
        resent_started h hc (by rw [hcid]; exact hvalid.2.2.1)
      have hsame : r.questionId = q.questionId := hrid.trans (hcid.trans hid.symm)
      obtain hend | ⟨cmd, hcmd, hcarries, ⟨hend, k, hk, hkid, hka, hkt, -⟩ | hend⟩ :=
        (hrun ops).2.2
      · rw [Table.eq_of_key hrm hend hsame] at hrs
        cases hrs
      · -- the task of the question has one active segment
        have hgk : g = k := (slots_of_reachable hr').eq_of_active hg hk ha hka
          (hgt.trans ((congrArg Question.taskId (Table.eq_of_key hrm hend hsame)).trans hkt.symm))
        exact ⟨cmd, hcmd, hcarries.trans hid, by rw [← hgid, hgk, hkid]⟩
      · rw [Table.eq_of_key hrm hend hsame] at hrs
        cases hrs
    · obtain ⟨g, hg, hst, hgid, cmd', hpend, rfl⟩ := pendingLaunches_sends h hc
      have ha : g.active = true := by rw [Segment.active, hst]; rfl
      have := claims_pending hr ops hcmd g hg (hgid.trans hseg) ha
      rw [hpend, Except.ok.injEq] at this
      rw [this]
  · obtain ⟨r, hrm, hrs, hrid, hrt, hrr, hrh⟩ := queued_row hr hq rfl hne ops
    obtain ⟨t, htm, htid, htrev⟩ := ht
    obtain ⟨t', ht', hst⟩ := (run_grows hr ops).1.task htm
    refine ⟨r.status, (answerQuestion_answered hrm hrs (hrid.trans hid)).2 hrh (hrt.trans htask)
      (hrr.trans hrev) hvalid ⟨t', ht', (Task.static_id hst).trans htid, ?_⟩⟩
    exact (congrArg Task.workRevision hst :).trans htrev
  · obtain ⟨r, hrm, hrs, hrid, -, -, hrh⟩ := queued_row hr hq rfl hne ops
    cases hx : d.answerQuestion (d.run s ops) other with
    | error e => exact ⟨e, rfl⟩
    | ok res =>
      have hsame := (answerQuestion_answered hrm hrs (hrid.trans (hid.trans hother.symm))).1 res hx
      exact absurd (hhash (hsame.symm.trans hrh)) hdiff

/-- An answer is delivered once: nothing that was claimed or sent before carries the
question, and from then on the next launch of the task does, and it alone. -/
theorem answer_delivered_once (d : DB) (limits : ConcurrencyLimits) (before : List Op)
    {status : QuestionStatus} (hq : q ∈ (d.run (State.fresh limits) before).questions)
    (hid : q.questionId = spec.questionId) (hopen : q.status = .open)
    (h : d.answerQuestion (d.run (State.fresh limits) before) spec = .ok (s', status)) :
    (∀ cmd ∈ d.claims (State.fresh limits) before, cmd.questionId ≠ spec.questionId) ∧
      (∀ pre, pre <+: before → ∀ hostId epoch s'' commands,
        pendingLaunches (d.run (State.fresh limits) pre) hostId epoch = .ok (s'', commands) →
          ∀ c ∈ commands, c.questionId ≠ spec.questionId) ∧
      Delivered d s' q spec := by
  have hr : d.Reachable limits (d.run (State.fresh limits) before) := ⟨before, rfl⟩
  have hvalid : spec.taskId ≠ "" ∧ 1 ≤ spec.workRevision ∧ spec.questionId ≠ "" ∧
      1 ≤ spec.questionRevision ∧ d.trimSpace spec.answer ≠ "" ∧
      spec.answer.utf8ByteSize ≤ 32 * 1024 := by
    simp only [DB.answerQuestion, bind_ok_iff, require_ok, exists_const] at h
    exact h.1
  -- a question that was sent is not open
  have hnot : ∀ {r : Question} (segmentId : String), r.questionId = spec.questionId →
      ¬ (d.run (State.fresh limits) before).Sent r segmentId := by
    intro r segmentId hrid hsent
    rcases hsent.status hq (hid.trans hrid.symm) with hst | hst <;>
      · rw [hopen] at hst; cases hst
  refine ⟨fun cmd hc hcid => ?_, fun pre hpre hostId epoch s'' commands hp c hc hcid => ?_, ?_⟩
  · obtain ⟨r, hrid, hsent⟩ := claims_sent (reachable_fresh d limits) before hc
      (by rw [hcid]; exact hvalid.2.2.1)
    exact hnot _ (hrid.trans hcid) hsent
  · obtain ⟨rest, rfl⟩ := hpre
    obtain ⟨r, hrm, hrid, hrs, g, hg, hgid, ha, hgt, hga⟩ :=
      resent_started hp hc (by rw [hcid]; exact hvalid.2.2.1)
    have hstarted : r.started = r := by
      cases r
      simp only at hrs
      rw [hrs]
      rfl
    have hsent : (d.run (State.fresh limits) pre).Sent r c.segmentId :=
      .inl ⟨by rwa [hstarted], g, hg, hgid, ha, hgt, hga⟩
    refine hnot (r := r) c.segmentId (hrid.trans hcid) ?_
    rw [DB.run, run_append]
    exact (sent_run ⟨pre, rfl⟩ hsent (by rw [hrid, hcid]; exact hvalid.2.2.1) rest).2
  · obtain ⟨htask, hrev, ht, hanswered⟩ := answerQuestion_open hq hid hopen h
    have hx : d.exec (d.run (State.fresh limits) before) (.answerQuestion spec) = .ok s' :=
      committed_ok.mpr ⟨status, h⟩
    exact delivered_of_answered (step_of_exec hx ▸ reachable_step _ hr) hanswered hid htask hrev ht
      hvalid

end Answer

def answerYes : AnswerSpec := ⟨"a", 1, "host:1:question", 1, "yes"⟩

/-- The segment that asked has exited, and its question is answered. -/
theorem yes_delivered_once : ∃ (q : Question) (s' : State), q.status = .open ∧
    toyDB.answerQuestion (toyDB.run (State.fresh {})
      (questionOps ++ [toyCommit "a" 11 2 .exited])) answerYes = .ok (s', .resumeQueued) ∧
    Delivered toyDB s' q answerYes := by
  have hfacts : (∃ q ∈ (toyDB.run (State.fresh {})
        (questionOps ++ [toyCommit "a" 11 2 .exited])).questions.rows,
      q.questionId = answerYes.questionId ∧ q.status = .open) ∧
    ∃ r ∈ (toyDB.answerQuestion (toyDB.run (State.fresh {})
      (questionOps ++ [toyCommit "a" 11 2 .exited])) answerYes).toOption,
      r.2 = .resumeQueued := by decide +kernel
  obtain ⟨⟨q, hq, hid, hopen⟩, ⟨s', status⟩, hr, rfl⟩ := hfacts
  have h := toOption_eq_some.mp hr
  obtain ⟨-, -, hdelivered⟩ :=
    answer_delivered_once toyDB {} _ (Table.mem_def.mpr hq) hid hopen h
  exact ⟨q, s', hopen, h, hdelivered⟩

end Orchestrator.Store
