import Orchestrator.Invariants.Budget

/-!
# Rounds of questions

A resumed launch carries the answered question of its attempt, and the Host
numbers the question of its segment one past the one it carries. The revision a
launch carried stays readable while its segment is active.
-/
namespace Orchestrator.Store
open Library

/-- The revision of the question the launch of `g` carried, 0 for none; what
`PendingLaunches` reads. -/
def State.launchedRevision (s : State) (g : Segment) : Int :=
  ((s.latestQuestion g.taskId g.attemptId .resumeStarted).map Question.questionRevision).getD 0

/-- The revision of the question a launch of `t` would carry, 0 for none. -/
def State.carriedRevision (s : State) (t : Task) : Int :=
  if t.status = .resumeQueued then
    (((s.latestAttempt t.id).bind fun a => s.latestQuestion t.id a.id .resumeQueued).map
      Question.questionRevision).getD 0
  else 0

/-- Revisions are positive, and a started round belongs to an active segment. -/
structure Rounds (s : State) : Prop where
  positive : ∀ q ∈ s.questions, 1 ≤ q.questionRevision
  started : ∀ q ∈ s.questions, q.status = .resumeStarted →
    ∃ g ∈ s.segments, g.active = true ∧ g.taskId = q.taskId ∧ g.attemptId = q.attemptId

/-- The task a claim picks. -/
def DB.pickedTask (d : DB) (s : State) : Op → Option Task
  | .claimReady _ hostId _ _ =>
    (s.hosts.find? hostId).bind fun h => selectReady d.toPlatform s.toCore h.launchId
  | _ => none

/-- When it is accepted, the operation leaves the Hosts their next revisions: a
claim picks a task with no question one past the one it will carry, and no
worker reports a question one past the one its launch carried. -/
def DB.Staggers (d : DB) (s : State) (op : Op) : Prop :=
  (d.exec s op).isOk = true →
    (∀ t ∈ d.pickedTask s op, s.revisionUnused t.id (s.carriedRevision t + 1)) ∧
    ∀ q ∈ d.reportedQuestion s op, ∀ g ∈ s.segments.rows,
      g.id = q.1 → g.active = true → q.2 ≠ s.launchedRevision g + 1

instance (d : DB) (s : State) (op : Op) : Decidable (d.Staggers s op) :=
  inferInstanceAs (Decidable (_ → _ ∧ _))

/-! ## Segments of a step -/

section Segments
variable {d : DB} {op : Op} {x : Option String} {c c' : Core}

/-- An active segment stays active unless it exits. -/
theorem Step.active (hs : Step d op x c c') {g : Segment} (hg : g ∈ c.segments)
    (ha : g.active = true) :
    (∃ g' ∈ c'.segments, g'.static = g.static ∧ g'.active = true) ∨ ∃ e, Exits op e g := by
  cases hs with
  | submit hs =>
    obtain ⟨p, launchId, stamp, -, -, hi⟩ := hs.inserted
    exact .inl ⟨g, hi.segments ▸ hg, rfl, ha⟩
  | move hm =>
    obtain ⟨-, φ, hr, hφ⟩ | hc := hm.booked
    · obtain ⟨hst, ⟨-, hact⟩ | ⟨-, -, e, he, -⟩⟩ := hφ g hg
      · exact .inl ⟨φ g, Table.mem_def.mpr (hr ▸ List.mem_map_of_mem hg), hst, hact.trans ha⟩
      · exact .inr ⟨e, he⟩
    · obtain ⟨-, -, -, -, -, hattempt, hsegment⟩ := hc
      obtain ⟨-, -, -, hsegs⟩ := startAttempt_frame hattempt
      obtain ⟨segments, hi, rfl⟩ := startSegment_cases hsegment
      exact .inl ⟨g, (Table.mem_insert hi).mpr (.inl (hsegs ▸ hg)), rfl, ha⟩

/-- An active segment was active before, or is new. -/
theorem Step.active_of (hs : Step d op x c c') {g' : Segment} (hg' : g' ∈ c'.segments)
    (ha : g'.active = true) :
    (∃ g ∈ c.segments, g'.static = g.static ∧ g.active = true) ∨
      (∃ env hostId epoch slots, op = .claimReady env hostId epoch slots) ∧
        ∀ g ∈ c.segments, g.id ≠ g'.id := by
  cases hs with
  | submit hs =>
    obtain ⟨p, launchId, stamp, -, -, hi⟩ := hs.inserted
    exact .inl ⟨g', hi.segments ▸ hg', rfl, ha⟩
  | move hm =>
    obtain ⟨-, φ, hr, hφ⟩ | hc := hm.booked
    · rw [Table.mem_def, hr] at hg'
      obtain ⟨g, hg, rfl⟩ := List.mem_map.mp hg'
      refine .inl ⟨g, hg, (hφ g hg).1, ?_⟩
      obtain ⟨-, ⟨-, hact⟩ | ⟨hact, -⟩⟩ := hφ g hg
      · exact hact.symm.trans ha
      · exact hact
    · obtain ⟨hop, -, -, -, -, hattempt, hsegment⟩ := hc
      obtain ⟨-, -, -, hsegs⟩ := startAttempt_frame hattempt
      obtain ⟨segments, hi, rfl⟩ := startSegment_cases hsegment
      rw [hsegs] at hi
      rcases (Table.mem_insert hi).mp hg' with hg | rfl
      · exact .inl ⟨g', hg, rfl, ha⟩
      · exact .inr ⟨⟨_, _, _, _, hop⟩, (Table.insert?_eq_some.mp hi).1⟩

end Segments

/-! ## Questions of a step -/

section Questions
variable {d : DB} {op : Op} {x : Option String} {s s' : State}

/-- A question was asked before, or is asked of an active segment now. -/
theorem Inquiry.question_of (h : Inquiry d op s s') {q' : Question} (hq' : q' ∈ s'.questions) :
    (∃ q ∈ s.questions, q.taskId = q'.taskId ∧ q.questionRevision = q'.questionRevision) ∨
      ∃ e g, g ∈ s.segments ∧ g.active = true ∧ Names e g ∧ 1 ≤ e.questionRevision ∧
        ((op.event = some e ∧ e.kind = .question) ∨
          d.reportedQuestion s op = some (e.segmentId, e.questionRevision)) ∧
        q' = openQuestion e := by
  have hupdate : ∀ {p : Question → Bool} {f : Question → Question}
      {hf : ∀ q, (f q).questionId = q.questionId}, s'.questions = s.questions.update p f hf →
      (∀ q, (f q).taskId = q.taskId ∧ (f q).questionRevision = q.questionRevision) →
      ∃ q ∈ s.questions, q.taskId = q'.taskId ∧ q.questionRevision = q'.questionRevision := by
    intro p f hf heq hcols
    rw [heq] at hq'
    obtain ⟨q, hq, rfl⟩ := Table.mem_update.mp hq'
    exact ⟨q, hq, (Table.patch_field Question.taskId (fun q => (hcols q).1) q).symm,
      (Table.patch_field Question.questionRevision (fun q => (hcols q).2) q).symm⟩
  cases h with
  | idle h => exact .inl ⟨q', h ▸ hq', rfl, rfl⟩
  | resolve _ _ _ _ h => exact .inl (hupdate h fun _ => ⟨rfl, rfl⟩)
  | spare hop h =>
    cases h with
    | keep h => exact .inl ⟨q', h ▸ hq', rfl, rfl⟩
    | @ask e g hg ha he hrev hsrc h =>
      rcases (Table.mem_insert h).mp hq' with hq | rfl
      · exact .inl ⟨q', hq, rfl, rfl⟩
      · exact .inr ⟨e, g, hg, ha, he, hrev, hsrc, rfl⟩
    | answer _ h => exact .inl (hupdate h fun _ => ⟨rfl, rfl⟩)
    | start _ _ _ _ _ _ h => exact .inl (hupdate h fun _ => ⟨rfl, rfl⟩)

theorem latestQuestion_spec {taskId attemptId : String} {status : QuestionStatus} {q : Question}
    (h : s.latestQuestion taskId attemptId status = some q) :
    q ∈ s.questions ∧ q.taskId = taskId ∧ q.attemptId = attemptId ∧ q.status = status := by
  have hm := List.argmax_mem h
  simp only [List.mem_filter, Bool.and_eq_true, decide_eq_true_eq] at hm
  exact ⟨hm.1, hm.2.1.1, hm.2.1.2, hm.2.2⟩

theorem resumedQuestion_spec {t : Task} {place : Placement} {q : Question}
    (h : s.resumedQuestion t place = some q) : q ∈ s.questions ∧ q.taskId = t.id ∧
      q.attemptId = place.attemptId ∧ q.status = .resumeQueued := by
  unfold State.resumedQuestion at h
  split at h
  · exact latestQuestion_spec h
  · cases h

/-- The question a round starts is one row. -/
theorem startResume_selects {t : Task} {place : Placement} {a : Question} (ha : a ∈ s.questions)
    (h : (s.resumedQuestion t place).map Question.questionId = some a.questionId) :
    s.resumedQuestion t place = some a := by
  cases hq : s.resumedQuestion t place with
  | none => rw [hq] at h; cases h
  | some q =>
    rw [hq, Option.map_some, Option.some.injEq] at h
    rw [Table.eq_of_key (resumedQuestion_spec hq).1 ha h]

/-- A round that had started keeps its segment, unless the segment exits. -/
theorem Rounds.outlives (h : Rounds s) (he : Effect d op x s s') {q : Question}
    (hq : q ∈ s.questions) (hst : q.status = .resumeStarted) :
    (∃ g ∈ s'.segments, g.active = true ∧ g.taskId = q.taskId ∧ g.attemptId = q.attemptId) ∨
      ∃ e g, Exits op e g ∧ g ∈ s.segments ∧ g.active = true ∧ g.taskId = q.taskId ∧
        g.attemptId = q.attemptId := by
  obtain ⟨g, hg, ha, htask, hattempt⟩ := h.started q hq hst
  obtain ⟨g', hg', hst, ha'⟩ | ⟨e, hx⟩ := he.step.active hg ha
  · exact .inl ⟨g', hg', ha', (Segment.static_taskId hst).trans htask,
      (Segment.static_attemptId hst).trans hattempt⟩
  · exact .inr ⟨e, g, hx, hg, ha, htask, hattempt⟩

/-- The rounds that an exit leaves started are those of other segments. -/
theorem Rounds.resolved (h : Rounds s) (he : Effect d op x s s') {e : Event} {g₀ : Segment}
    (hx₀ : Exits op e g₀) (heq : s'.questions = resolveRounds s.questions e) {q' : Question}
    (hq' : q' ∈ s'.questions) (hst : q'.status = .resumeStarted) :
    ∃ g ∈ s'.segments, g.active = true ∧ g.taskId = q'.taskId ∧ g.attemptId = q'.attemptId := by
  rw [heq] at hq'
  obtain ⟨q, hq, rfl⟩ := Table.mem_update.mp hq'
  unfold Table.patch at hst ⊢
  split at hst
  · cases hst
  · rename_i hsel
    rw [if_neg hsel]
    obtain hnew | ⟨e', g, hx, -, -, htask, hattempt⟩ := h.outlives he hq hst
    · exact hnew
    · obtain rfl : e = e' := Option.some.inj (hx₀.1.symm.trans hx.1)
      obtain ⟨-, h2, h3⟩ := hx.2.2
      simp [h2, h3, htask, hattempt, hst] at hsel

/-- Where no segment exits, a round starts with a segment of its own. -/
theorem Asked.rounds (hasked : Asked d op s s')
    (hspare : ∀ q ∈ s.questions, q.status = .resumeStarted →
      ∃ g ∈ s'.segments, g.active = true ∧ g.taskId = q.taskId ∧ g.attemptId = q.attemptId)
    {q' : Question} (hq' : q' ∈ s'.questions) (hst : q'.status = .resumeStarted) :
    ∃ g ∈ s'.segments, g.active = true ∧ g.taskId = q'.taskId ∧ g.attemptId = q'.attemptId := by
  cases hasked with
  | keep heq => exact hspare q' (heq ▸ hq') hst
  | @ask e g _ _ _ _ _ hi =>
    rcases (Table.mem_insert hi).mp hq' with hq | rfl
    · exact hspare q' hq hst
    · cases hst
  | answer _ heq =>
    rw [heq] at hq'
    obtain ⟨q, hq, rfl⟩ := Table.mem_update.mp hq'
    unfold Table.patch at hst ⊢
    split at hst
    · cases hst
    · rename_i hsel
      rw [if_neg hsel]
      exact hspare q hq hst
  | start ht _ hg ha htask hattempt heq =>
    rw [heq] at hq'
    obtain ⟨q, hq, rfl⟩ := Table.mem_update.mp hq'
    unfold Table.patch at hst ⊢
    split at hst
    · rename_i hsel
      simp only [Bool.and_eq_true, decide_eq_true_eq] at hsel
      rw [if_pos (by simpa using hsel)]
      obtain ⟨-, htask', hattempt', -⟩ := resumedQuestion_spec (startResume_selects hq hsel.1)
      exact ⟨_, hg, ha, htask.trans htask'.symm, hattempt.trans hattempt'.symm⟩
    · rename_i hsel
      rw [if_neg hsel]
      exact hspare q hq hst

theorem Rounds.effect (h : Rounds s) (he : Effect d op x s s') : Rounds s' := by
  refine ⟨fun q' hq' => ?_, fun q' hq' hst => ?_⟩
  · obtain ⟨q, hq, -, heq⟩ | ⟨e, -, -, -, -, hrev, -, rfl⟩ := he.inquiry.question_of hq'
    · rw [← heq]; exact h.positive q hq
    · exact hrev
  · cases he.inquiry with
    | idle heq => subst heq; exact h.started q' hq' hst
    | resolve _ _ hx _ heq => exact h.resolved he hx heq hq' hst
    | spare hop hasked =>
      refine hasked.rounds (fun q hq hqs => ?_) hq' hst
      obtain hnew | ⟨e, g, hx, hg, ha, -⟩ := h.outlives he hq hqs
      · exact hnew
      · rw [hop e g hx hg] at ha; cases ha

theorem Rounds.reachable {limits : ConcurrencyLimits} (h : d.Reachable limits s) : Rounds s := by
  have : Bound s ∧ Rounds s := by
    refine reachable_induct (P := fun s => Bound s ∧ Rounds s) ⟨bound_fresh limits, ?_⟩ ?_ h
    · exact ⟨fun _ h => absurd h (Table.not_mem_empty _),
        fun _ h => absurd h (Table.not_mem_empty _)⟩
    · intro s op s' ⟨hb, hr⟩ hx
      exact ⟨(exec_effect hb hx).bound, hr.effect (exec_effect hb hx)⟩
  exact this.2

/-! ## The revision a launch carried -/

theorem launchedRevision_congr {g g' : Segment} (hst : g'.static = g.static)
    (h : s'.questions.rows.filter (fun q =>
        q.taskId = g.taskId && q.attemptId = g.attemptId && q.status = .resumeStarted) =
      s.questions.rows.filter (fun q =>
        q.taskId = g.taskId && q.attemptId = g.attemptId && q.status = .resumeStarted)) :
    s'.launchedRevision g' = s.launchedRevision g := by
  rw [State.launchedRevision, State.launchedRevision, State.latestQuestion, State.latestQuestion,
    Segment.static_taskId hst, Segment.static_attemptId hst, h]

/-- The rounds started for an active segment stay as they are until it exits. -/
theorem Effect.startedRounds (he : Effect d op x s s') (hs : Slots d.toPlatform s.toCore)
    {g g' : Segment} (hg : g ∈ s.segments) (ha : g.active = true) (hg' : g' ∈ s'.segments)
    (ha' : g'.active = true) (hst : g'.static = g.static) : s'.questions.rows.filter (fun q =>
        q.taskId = g.taskId && q.attemptId = g.attemptId && q.status = .resumeStarted) =
      s.questions.rows.filter (fun q =>
        q.taskId = g.taskId && q.attemptId = g.attemptId && q.status = .resumeStarted) := by
  -- questions of other tasks, and rounds not started yet, are out of sight
  have hother : ∀ q : Question, q.taskId ≠ g.taskId → (q.taskId = g.taskId &&
      q.attemptId = g.attemptId && q.status = .resumeStarted) = false := fun q hq => by simp [hq]
  cases he.inquiry with
  | idle heq => rw [heq]
  | @resolve e g₀ hg₀ ha₀ hx₀ hgone heq =>
    rw [heq, resolveRounds]
    refine Table.filter_update fun q hq hsel => ?_
    simp only [Bool.and_eq_true, decide_eq_true_eq] at hsel
    have hne : q.taskId ≠ g.taskId := by
      rw [hsel.1.1, hx₀.2.2.2.1]
      intro heq
      have hid : g'.id = g₀.id := by
        rw [Segment.static_id hst, hs.eq_of_active hg₀ hg ha₀ ha heq]
      rw [hgone g' hg' hid] at ha'
      cases ha'
    exact ⟨hother q hne, by simp⟩
  | spare hop hasked =>
    cases hasked with
    | keep heq => rw [heq]
    | ask _ _ _ _ _ hi => rw [Table.rows_insert hi, List.filter_append]; simp [openQuestion]
    | answer _ heq =>
      rw [heq]
      refine Table.filter_update fun q _ hsel => ?_
      simp only [Bool.and_eq_true, decide_eq_true_eq] at hsel
      simp [hsel.2]
    | start ht hc _ _ _ _ heq =>
      rw [heq, startResume]
      refine Table.filter_update fun q hq hsel => ?_
      simp only [Bool.and_eq_true, decide_eq_true_eq] at hsel
      obtain ⟨-, htask, -⟩ := resumedQuestion_spec (startResume_selects hq hsel.1)
      have hne : q.taskId ≠ g.taskId := by
        rw [htask]
        exact (hs.idle ht (TaskStatus.idle_of_claimable hc) g hg ha).symm
      exact ⟨hother q hne, hother _ hne⟩

/-- So does the revision of the launch. -/
theorem Effect.launchedRevision (he : Effect d op x s s') (hs : Slots d.toPlatform s.toCore)
    {g g' : Segment} (hg : g ∈ s.segments) (ha : g.active = true) (hg' : g' ∈ s'.segments)
    (ha' : g'.active = true) (hst : g'.static = g.static) :
    s'.launchedRevision g' = s.launchedRevision g :=
  launchedRevision_congr hst (he.startedRounds hs hg ha hg' ha' hst)

theorem launchedRevision_nonneg (h : Rounds s) (g : Segment) : 0 ≤ s.launchedRevision g := by
  unfold State.launchedRevision
  cases hq : s.latestQuestion g.taskId g.attemptId .resumeStarted with
  | none => exact le_refl _
  | some q => exact (by omega : (0 : Int) ≤ 1).trans (h.positive q (latestQuestion_spec hq).1)

theorem resumedQuestion_revision {env : Env} {t : Task} {place : Placement}
    (hplace : s.toCore.place env t = .ok place) :
    ((s.resumedQuestion t place).map Question.questionRevision).getD 0 = s.carriedRevision t := by
  unfold State.resumedQuestion State.carriedRevision
  split
  · rename_i hst
    simp only [Core.place, if_pos hst, Core.placeResume, bind_ok_iff, require_ok, expect_ok,
      exists_const, Except.ok.injEq] at hplace
    obtain ⟨a, ha, -, rfl⟩ := hplace
    rw [ha, Option.bind_some]
  · rfl

/-- The question once a launch carries its answer. -/
def Question.started (q : Question) : Question := { q with status := .resumeStarted }

/-- A claim starts the round whose question it carries, and no other of its task. -/
theorem startResume_latest (h : Rounds s) {t : Task} {place : Placement}
    (hidle : ∀ g ∈ s.segments, g.active = true → g.taskId ≠ t.id)
    (hq : s'.questions = startResume s.questions (s.resumedQuestion t place)) :
    s'.latestQuestion t.id place.attemptId .resumeStarted =
      (s.resumedQuestion t place).map Question.started := by
  have hnone : ∀ q ∈ s.questions, q.status = .resumeStarted → q.taskId ≠ t.id := by
    intro q hqm hst heq
    obtain ⟨g, hg, ha, htask, -⟩ := h.started q hqm hst
    exact hidle g hg ha (htask.trans heq)
  have hsome : ∀ q', s'.latestQuestion t.id place.attemptId .resumeStarted = some q' →
      ∃ q, s.resumedQuestion t place = some q ∧ q' = q.started := by
    intro q' hq'
    obtain ⟨hm, htask, -, hst⟩ := latestQuestion_spec hq'
    rw [hq] at hm
    obtain ⟨q, hqm, rfl⟩ := Table.mem_update.mp hm
    unfold Table.patch at htask hst ⊢
    split at hst
    · rename_i hsel
      rw [if_pos hsel]
      simp only [Bool.and_eq_true, decide_eq_true_eq] at hsel
      exact ⟨q, startResume_selects hqm hsel.1, rfl⟩
    · rename_i hsel
      rw [if_neg hsel] at htask
      exact absurd htask (hnone q hqm hst)
  cases hlatest : s'.latestQuestion t.id place.attemptId .resumeStarted with
  | some q' =>
    obtain ⟨q, hres, rfl⟩ := hsome q' hlatest
    rw [hres, Option.map_some]
  | none =>
    cases hres : s.resumedQuestion t place with
    | none => rfl
    | some q =>
      obtain ⟨hqm, htask, hattempt, hst⟩ := resumedQuestion_spec hres
      have hnil := List.argmax_eq_none.mp hlatest
      have hm : { q with status := .resumeStarted } ∈ s'.questions := by
        rw [hq, startResume]
        refine Table.mem_update.mpr ⟨q, hqm, ?_⟩
        rw [Table.patch_pos (by simp [hres, hst])]
      have := List.filter_eq_nil_iff.mp hnil _ hm
      simp [htask, hattempt] at this

/-- A claimed command carries the revision its segment was launched with. -/
theorem Claimed.carries {env : Env} {hostId : String} {epoch : Nat} {slots : Int} {t : Task}
    {place : Placement} {cmd : LaunchCommand}
    (hc : Claimed d env s hostId epoch slots t place s' cmd) (h : Rounds s)
    (hs : Slots d.toPlatform s.toCore) : cmd.questionRevision = s.carriedRevision t ∧
      cmd.taskId = t.id ∧
      ∀ g ∈ s'.segments, g.id = cmd.segmentId → s'.launchedRevision g = s.carriedRevision t := by
  obtain ⟨c₁, c₂, capabilities, -, h₂, -, rfl, rfl⟩ := launch_cases hc.launched
  obtain ⟨host, -, -, -, hsel⟩ := hc.host
  obtain ⟨ht, -, hclaimable, -⟩ := selectReady_spec hsel
  refine ⟨resumedQuestion_revision hc.placed, rfl, fun g hg hid => ?_⟩
  obtain ⟨segments, hi, rfl⟩ := startSegment_cases h₂
  have hg' : g = d.claimedSegment env hostId epoch t place (s.toCore.grant t) :=
    Table.eq_of_key (t := segments) hg ((Table.mem_insert hi).mpr (.inr rfl)) hid
  rw [← resumedQuestion_revision hc.placed, hg', State.launchedRevision]
  have hidle := hs.idle ht (TaskStatus.idle_of_claimable hclaimable)
  refine (congrArg (fun q : Option Question => (q.map Question.questionRevision).getD 0)
    (startResume_latest h hidle rfl)).trans ?_
  rw [Option.map_map]
  rfl

end Questions
end Orchestrator.Store
