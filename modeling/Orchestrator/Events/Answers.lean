import Orchestrator.Dispatch.Regrants
import Orchestrator.Events.Questions
import Orchestrator.Invariants.Resting

/-!
# An answer and its launch

An answer waits with its task: the task is claimed next, or cancelled for good.
No segment of the task starts meanwhile, so the launch resumes the attempt that
asked, finds no other answer there, and carries this one.
-/
namespace Orchestrator.Store
open Library

/-! ## Answers that wait -/

structure Parked (c : Core) (questions : Table Question.questionId) : Prop where
  asked : ∀ q ∈ questions, ∃ g ∈ c.segments,
    g.id = q.segmentId ∧ g.taskId = q.taskId ∧ g.attemptId = q.attemptId
  waits : ∀ q ∈ questions, q.status = .resumeQueued →
    ∃ t ∈ c.tasks, t.id = q.taskId ∧ t.status.parked = true
  last : ∀ q ∈ questions, q.status = .resumeQueued → ∀ g ∈ c.segments, g.id = q.segmentId →
    ∀ k ∈ c.segments, k.taskId = g.taskId → k.rank ≤ g.rank
  single : ∀ q ∈ questions, q.status = .resumeQueued → ∀ r ∈ questions, r.status = .resumeQueued →
    q.taskId = r.taskId → q.questionId = r.questionId

theorem parked_fresh (limits : ConcurrencyLimits) :
    Parked (Core.fresh limits) (State.fresh limits).questions := by
  refine ⟨?_, ?_, ?_, ?_⟩ <;> exact fun _ h => absurd h (Table.not_mem_empty _)

/-- The part of a question that neither an answer nor a launch writes. -/
def Question.static (q : Question) : Question :=
  { q with status := .open, answerHash := "", answerText := "" }

section Waiting
variable {d : DB} {op : Op} {x : Option String} {env : Env} {s s' : State} {q : Question} {t : Task}
  {place : Placement}

/-- A queued answer is the one the next launch of its task carries. -/
theorem Parked.resumed (h : Parked s.toCore s.questions) (hr : Ranked s.toCore)
    (ht : t ∈ s.tasks) (hc : t.status.claimable = true) (hplace : s.toCore.place env t = .ok place)
    (hq : q ∈ s.questions) (hid : q.taskId = t.id) (hqs : q.status = .resumeQueued) :
    s.resumedQuestion t place = some q ∧ q.attemptId = place.attemptId := by
  have hst : t.status = .resumeQueued := by
    obtain ⟨u, hu, hut, hp⟩ := h.waits q hq hqs
    obtain rfl : u = t := Table.eq_of_key hu ht (hut.trans hid)
    exact TaskStatus.resumeQueued_of_parked hp hc
  obtain ⟨g, hg, hgid, hgt, hga⟩ := h.asked q hq
  simp only [Core.place, if_pos hst, Core.placeResume, bind_ok_iff, expect_ok, require_ok,
    exists_const, Except.ok.injEq] at hplace
  obtain ⟨a, ha, -, rfl⟩ := hplace
  have htask : g.taskId = t.id := hgt.trans hid
  have hlast : s.latestSegment t.id = some g := hr.latestSegment_iff.mpr
    ⟨hg, htask, fun k hk hkt => h.last q hq hqs g hg hgid k hk (hkt.trans htask.symm)⟩
  have hattempt : q.attemptId = a.id := hga.symm.trans (hr.latestAttempt hlast ha)
  refine ⟨?_, hattempt⟩
  rw [State.resumedQuestion, if_pos hst]
  cases hl : s.latestQuestion t.id a.id .resumeQueued with
  | none =>
    have hnil := List.filter_eq_nil_iff.mp (List.argmax_eq_none.mp hl) q hq
    simp [hid, hattempt, hqs] at hnil
  | some r =>
    obtain ⟨hrm, hrt, -, hrs⟩ := latestQuestion_spec hl
    rw [Table.eq_of_key hrm hq (h.single r hrm hrs q hq hqs (hrt.trans hid.symm))]

/-- A question was there before, or is asked of a segment it names. -/
theorem Inquiry.row_of (h : Inquiry d op s s') {q' : Question} (hq' : q' ∈ s'.questions) :
    (∃ q ∈ s.questions, q'.static = q.static) ∨
      ∃ e g, g ∈ s.segments ∧ Names e g ∧ q' = openQuestion e := by
  have hupdate : ∀ {p : Question → Bool} {f : Question → Question}
      {hf : ∀ q, (f q).questionId = q.questionId}, s'.questions = s.questions.update p f hf →
      (∀ q, (f q).static = q.static) → ∃ q ∈ s.questions, q'.static = q.static := by
    intro p f hf heq hst
    rw [heq] at hq'
    obtain ⟨q, hq, rfl⟩ := Table.mem_update.mp hq'
    exact ⟨q, hq, Table.patch_field Question.static hst q⟩
  cases h with
  | idle h => exact .inl ⟨q', h ▸ hq', rfl⟩
  | resolve _ _ _ _ h => exact .inl (hupdate h fun _ => rfl)
  | spare hop h =>
    cases h with
    | keep h => exact .inl ⟨q', h ▸ hq', rfl⟩
    | @ask e g hg _ he _ _ h =>
      rcases (Table.mem_insert h).mp hq' with hq | rfl
      · exact .inl ⟨q', hq, rfl⟩
      · exact .inr ⟨e, g, hg, he, rfl⟩
    | answer _ h => exact .inl (hupdate h fun _ => rfl)
    | start _ _ _ _ _ _ h => exact .inl (hupdate h fun _ => rfl)

/-- A round starts with a claim: its task had no active segment. -/
theorem Step.claim_of_started {c c' : Core} {g : Segment} (hstep : Step d op x c c')
    (hs : Slots d.toPlatform c) (ht : t ∈ c.tasks) (hc : t.status.claimable = true)
    (hg : g ∈ c'.segments) (ha : g.active = true) (htask : g.taskId = t.id) :
    ∃ env hostId epoch slots, op = .claimReady env hostId epoch slots := by
  obtain ⟨k, hk, hst, hka⟩ | ⟨hop, -⟩ := hstep.active_of hg ha
  · exact absurd ((Segment.static_taskId hst).symm.trans htask)
      (hs.idle ht (TaskStatus.idle_of_claimable hc) k hk hka)
  · exact hop

/-- Other operations than an answer and a claim queue no question. -/
theorem Inquiry.queued_of (h : Inquiry d op s s') (hs : Slots d.toPlatform s.toCore)
    (hstep : Step d op x s.toCore s'.toCore) (hanswer : ∀ spec, op ≠ .answerQuestion spec)
    (hclaim : ∀ env hostId epoch slots, op ≠ .claimReady env hostId epoch slots)
    (hq : q ∈ s'.questions) (hqs : q.status = .resumeQueued) : q ∈ s.questions := by
  cases h with
  | idle h => exact h ▸ hq
  | resolve _ _ _ _ h =>
    rw [h] at hq
    obtain ⟨r, hr, rfl⟩ := Table.mem_update.mp hq
    unfold Table.patch at hqs ⊢
    split at hqs
    · cases hqs
    · rename_i hsel
      rw [if_neg hsel]
      exact hr
  | spare _ h =>
    cases h with
    | keep h => exact h ▸ hq
    | ask _ _ _ _ _ h =>
      rcases (Table.mem_insert h).mp hq with hq | rfl
      · exact hq
      · cases hqs
    | answer hop => exact absurd hop (hanswer _)
    | start ht hc hg ha htask =>
      obtain ⟨_, _, _, _, hop⟩ := hstep.claim_of_started hs ht hc hg ha htask
      exact absurd hop (hclaim _ _ _ _)

theorem Question.static_binding {q' : Question} (h : q'.static = q.static) :
    q'.questionId = q.questionId ∧ q'.taskId = q.taskId ∧ q'.attemptId = q.attemptId ∧
      q'.segmentId = q.segmentId :=
  ⟨(congrArg Question.questionId h :), (congrArg Question.taskId h :),
    (congrArg Question.attemptId h :), (congrArg Question.segmentId h :)⟩

theorem Effect.asked_of (he : Effect d op x s s') (h : Parked s.toCore s.questions) :
    ∀ q ∈ s'.questions, ∃ g ∈ s'.segments,
      g.id = q.segmentId ∧ g.taskId = q.taskId ∧ g.attemptId = q.attemptId := by
  intro q' hq'
  have hgrow : ∀ g ∈ s.segments, g.id = q'.segmentId → g.taskId = q'.taskId →
      g.attemptId = q'.attemptId → ∃ g ∈ s'.segments,
        g.id = q'.segmentId ∧ g.taskId = q'.taskId ∧ g.attemptId = q'.attemptId := by
    intro g hg h1 h2 h3
    obtain ⟨g', hg', hst⟩ := he.step.grows.segment hg
    exact ⟨g', hg', (Segment.static_id hst).trans h1, (Segment.static_taskId hst).trans h2,
      (Segment.static_attemptId hst).trans h3⟩
  obtain ⟨q, hq, hst⟩ | ⟨e, g, hg, ⟨h1, h2, h3⟩, rfl⟩ := he.inquiry.row_of hq'
  · obtain ⟨-, htask, hattempt, hseg⟩ := Question.static_binding hst
    obtain ⟨g, hg, h1, h2, h3⟩ := h.asked q hq
    exact hgrow g hg (h1.trans hseg.symm) (h2.trans htask.symm) (h3.trans hattempt.symm)
  · exact hgrow g hg h1.symm h2.symm h3.symm

/-- What neither answers nor claims. -/
theorem Parked.other (h : Parked s.toCore s.questions) (hs : Slots d.toPlatform s.toCore)
    (he : Effect d op x s s') (hanswer : ∀ spec, op ≠ .answerQuestion spec)
    (hclaim : ∀ env hostId epoch slots, op ≠ .claimReady env hostId epoch slots) :
    Parked s'.toCore s'.questions := by
  have hold : ∀ q ∈ s'.questions, q.status = .resumeQueued → q ∈ s.questions := fun q hq hqs =>
    he.inquiry.queued_of hs he.step hanswer hclaim hq hqs
  have hseg : ∀ g' ∈ s'.segments, ∃ g ∈ s.segments, g'.static = g.static := fun g' hg' => by
    obtain hg | ⟨env, hostId, epoch, slots, hop⟩ := he.step.segment_of hg'
    · exact hg
    · exact absurd hop (hclaim env hostId epoch slots)
  refine ⟨he.asked_of h, fun q hq hqs => ?_, fun q hq hqs g hg hid k hk htask => ?_,
    fun q hq hqs r hr hrs => h.single q (hold q hq hqs) hqs r (hold r hr hrs) hrs⟩
  · obtain ⟨t, ht, hid, hp⟩ := h.waits q (hold q hq hqs) hqs
    obtain ⟨t', ht', hid', hp'⟩ | ⟨env, hostId, epoch, slots, hop⟩ :=
      he.step.rests parked_resting hs ht hp
    · exact ⟨t', ht', hid'.trans hid, hp'⟩
    · exact absurd hop (hclaim env hostId epoch slots)
  · obtain ⟨g₀, hg₀, hgst⟩ := hseg g hg
    obtain ⟨k₀, hk₀, hkst⟩ := hseg k hk
    rw [Segment.static_rank hgst, Segment.static_rank hkst]
    refine h.last q (hold q hq hqs) hqs g₀ hg₀ ((Segment.static_id hgst).symm.trans hid) k₀ hk₀ ?_
    rw [← Segment.static_taskId hgst, ← Segment.static_taskId hkst, htask]

/-- An answer is queued where none was: the task was waiting for it. -/
theorem Parked.answer {spec : AnswerSpec} {hash : String} (h : Parked s.toCore s.questions)
    (hr : Ranked s.toCore) (ht : t ∈ s.tasks) (hst : t.status = .waitingQuestion)
    (hq : q ∈ s.questions) (hqid : q.questionId = spec.questionId) (hqt : q.taskId = t.id)
    (hlast : (s.latestSegment t.id).map Segment.id = some q.segmentId)
    (hasked : ∀ q ∈ s'.questions, ∃ g ∈ s'.segments,
      g.id = q.segmentId ∧ g.taskId = q.taskId ∧ g.attemptId = q.attemptId)
    (hs' : s' = { s with
      toCore := s.toCore.enqueue t.id .resumeQueued
      questions := s.questions.update
        (fun q => q.questionId = spec.questionId && q.status = .open)
        (fun q => { q with
          status := .resumeQueued, answerHash := hash, answerText := spec.answer }) }) :
    Parked s'.toCore s'.questions := by
  subst hs'
  -- no other answer of the task was queued
  have hnone : ∀ r ∈ s.questions, r.status = .resumeQueued → r.taskId ≠ t.id := by
    intro r hrm hrs heq
    obtain ⟨u, hu, hut, hp⟩ := h.waits r hrm hrs
    obtain rfl : u = t := Table.eq_of_key hu ht (hut.trans heq)
    rw [hst] at hp
    cases hp
  refine ⟨hasked, fun r hrm hrs => ?_, fun r hrm hrs => ?_, fun r hrm hrs l hl hls hid => ?_⟩
  · rcases mem_answered hq hqid hrm with rfl | ⟨hrm, -⟩
    · exact ⟨_, Core.mem_enqueue.mpr (.inl ⟨t, ht, rfl, rfl⟩), hqt.symm, rfl⟩
    · obtain ⟨u, hu, hut, hp⟩ := h.waits r hrm hrs
      refine ⟨u, Core.mem_enqueue.mpr (.inr ⟨hu, ?_⟩), hut, hp⟩
      exact fun hid => hnone r hrm hrs (hut.symm.trans hid)
  · rcases mem_answered hq hqid hrm with rfl | ⟨hrm, -⟩
    · intro g hg hid k hk htask
      obtain ⟨l, hl, hlid⟩ := Option.map_eq_some_iff.mp hlast
      obtain ⟨hlm, hlt, hmax⟩ := hr.latestSegment_iff.mp hl
      obtain rfl : g = l := Table.eq_of_key hg hlm (hid.trans hlid.symm)
      exact hmax k hk (htask.trans hlt)
    · exact h.last r hrm hrs
  · rcases mem_answered hq hqid hrm with rfl | ⟨hrm, -⟩ <;>
      rcases mem_answered hq hqid hl with rfl | ⟨hl, -⟩
    · rfl
    · exact absurd (hid.symm.trans hqt) (hnone l hl hls)
    · exact absurd (hid.trans hqt) (hnone r hrm hrs)
    · exact h.single r hrm hrs l hl hls hid

/-- A claim leaves the answers queued that it does not carry. -/
theorem mem_startResume {questions : Table Question.questionId} {carried : Option Question} :
    q ∈ startResume questions carried →
      (q ∈ questions ∧
        ¬ (carried.map Question.questionId = some q.questionId ∧ q.status = .resumeQueued)) ∨
      ∃ r ∈ questions, carried.map Question.questionId = some r.questionId ∧ q = r.started := by
  intro hq
  obtain ⟨r, hr, rfl⟩ := Table.mem_update.mp hq
  unfold Table.patch
  split
  · rename_i hsel
    simp only [Bool.and_eq_true, decide_eq_true_eq] at hsel
    exact .inr ⟨r, hr, hsel.1, rfl⟩
  · rename_i hsel
    simp only [Bool.and_eq_true, decide_eq_true_eq] at hsel
    exact .inl ⟨hr, hsel⟩

theorem startResume_keeps {questions : Table Question.questionId} {carried : Option Question}
    (hq : q ∈ questions) (hne : carried.map Question.questionId ≠ some q.questionId) :
    q ∈ startResume questions carried := by
  refine Table.mem_update_of_not (h := by intro _; rfl) hq ?_
  simp [hne]

theorem startResume_starts {questions : Table Question.questionId} (hq : q ∈ questions)
    (hqs : q.status = .resumeQueued) : q.started ∈ startResume questions (some q) := by
  refine Table.mem_update.mpr ⟨q, hq, ?_⟩
  rw [Table.patch_pos (by simp [hqs])]
  rfl

/-- The task of a claimed launch and what is left of the others. -/
theorem Claimed.tasks {hostId : String} {epoch : Nat} {slots : Int} {cmd : LaunchCommand}
    (hc : Claimed d env s hostId epoch slots t place s' cmd) :
    t ∈ s.tasks ∧ t.status.claimable = true ∧ cmd.taskId = t.id ∧ cmd.attemptId = place.attemptId ∧
      s'.questions = startResume s.questions (s.resumedQuestion t place) ∧
      (∀ u ∈ s.tasks, u.id ≠ t.id → u ∈ s'.tasks) ∧
      (∀ g ∈ s.segments, g ∈ s'.segments) ∧
      (∀ g' ∈ s'.segments, g' ∈ s.segments ∨ g'.taskId = t.id) ∧
      ∃ g ∈ s'.segments, g.id = cmd.segmentId ∧ g.active = true ∧ g.taskId = t.id ∧
        g.attemptId = place.attemptId := by
  obtain ⟨c₁, c₂, capabilities, h₁, h₂, -, rfl, rfl⟩ := launch_cases hc.launched
  obtain ⟨host, -, -, -, hsel⟩ := hc.host
  obtain ⟨ht, -, hclaimable, -⟩ := selectReady_spec hsel
  obtain ⟨-, -, htasks, hsegs⟩ := startAttempt_frame h₁
  obtain ⟨segments, hi, rfl⟩ := startSegment_cases h₂
  rw [hsegs] at hi
  refine ⟨ht, hclaimable, rfl, rfl, rfl, fun u hu hid => ?_, fun g hg => ?_, fun g' hg' => ?_,
    _, (Table.mem_insert hi).mpr (.inr rfl), rfl, rfl, rfl, rfl⟩
  · exact Core.mem_setTaskStatus.mpr (.inr ⟨htasks ▸ hu, hid⟩)
  · exact (Table.mem_insert hi).mpr (.inl hg)
  · exact ((Table.mem_insert hi).mp hg').imp_right fun heq => by rw [heq]; rfl

/-- A claim takes the answer of its task along. -/
theorem Parked.claim {hostId : String} {epoch : Nat} {slots : Int} {cmd : LaunchCommand}
    (h : Parked s.toCore s.questions) (hr : Ranked s.toCore)
    (hc : Claimed d env s hostId epoch slots t place s' cmd)
    (hasked : ∀ q ∈ s'.questions, ∃ g ∈ s'.segments,
      g.id = q.segmentId ∧ g.taskId = q.taskId ∧ g.attemptId = q.attemptId) :
    Parked s'.toCore s'.questions := by
  obtain ⟨ht, hclaimable, -, -, hquestions, htasks, hgrow, hsegs, -⟩ := hc.tasks
  have hold : ∀ q ∈ s'.questions, q.status = .resumeQueued →
      q ∈ s.questions ∧ q.taskId ≠ t.id := by
    intro q hq hqs
    rw [hquestions] at hq
    obtain ⟨hm, hnot⟩ | ⟨r, -, -, rfl⟩ := mem_startResume hq
    · refine ⟨hm, fun hid => hnot ⟨?_, hqs⟩⟩
      rw [(h.resumed hr ht hclaimable hc.placed hm hid hqs).1, Option.map_some]
    · cases hqs
  refine ⟨hasked, fun q hq hqs => ?_, fun q hq hqs g hg hid k hk htask => ?_,
    fun q hq hqs r hrm hrs => h.single q (hold q hq hqs).1 hqs r (hold r hrm hrs).1 hrs⟩
  · obtain ⟨hm, hne⟩ := hold q hq hqs
    obtain ⟨u, hu, hut, hp⟩ := h.waits q hm hqs
    exact ⟨u, htasks u hu (by rwa [hut]), hut, hp⟩
  · obtain ⟨hm, hne⟩ := hold q hq hqs
    obtain ⟨l, hl, hlid, hlt, hla⟩ := h.asked q hm
    obtain rfl : g = l := Table.eq_of_key hg (hgrow l hl) (hid.trans hlid.symm)
    obtain hk | hkt := hsegs k hk
    · exact h.last q hm hqs g hl hid k hk htask
    · exact absurd (hlt.symm.trans (htask.symm.trans hkt)) hne

theorem Parked.effect (h : Parked s.toCore s.questions) (hs : Slots d.toPlatform s.toCore)
    (hr : Ranked s.toCore) (he : Effect d op x s s') (hw : Writes d s op s') :
    Parked s'.toCore s'.questions := by
  cases hw with
  | same => exact h
  | answer ht hid hst hidle hq hqid hqt hopen hlast =>
    exact h.answer hr ht hst hq hqid hqt hlast (he.asked_of h) rfl
  | claim hc => exact h.claim hr hc (he.asked_of h)
  | fleet hop =>
    refine h.other hs he ?_ ?_
    · rintro _ rfl; cases hop
    · rintro _ _ _ _ rfl; cases hop
  | _ => exact h.other hs he nofun nofun

theorem parked_of_reachable {limits : ConcurrencyLimits} (h : d.Reachable limits s) :
    Parked s.toCore s.questions := by
  have hall : d.Reachable limits s ∧ Parked s.toCore s.questions := by
    refine reachable_induct (P := fun s => d.Reachable limits s ∧ Parked s.toCore s.questions)
      ⟨reachable_fresh d limits, parked_fresh limits⟩ ?_ h
    intro s op s' ⟨hr, hp⟩ hx
    refine ⟨step_of_exec hx ▸ reachable_step op hr, ?_⟩
    exact hp.effect (slots_of_reachable hr) (ranked_of_reachable hr)
      (exec_effect (bound_of_reachable hr) hx) (exec_writes hx)
  exact hall.2

end Waiting
end Orchestrator.Store
