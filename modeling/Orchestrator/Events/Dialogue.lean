import Orchestrator.Dispatch.Latest
import Orchestrator.Events.Rounds
import Orchestrator.Invariants.Writes

/-!
# The dialogue of a task

A question is asked by the active segment of its task, waits with the task when
the segment has exited, and its answer waits with the task for the next launch.
The invariant ties the rows of questions to segments and tasks; one lemma for
each thing an operation can do to it.
-/
namespace Orchestrator.Store
open Library

/-! ## Rewrites that leave the dialogue alone -/

/-- Segments are rewritten in place, and none starts or ends, or gains or loses
the outcome of a question. -/
def Core.Calm (c c' : Core) : Prop :=
  ∃ φ : Segment → Segment, c'.segments.rows = c.segments.rows.map φ ∧ ∀ g ∈ c.segments,
    (φ g).static = g.static ∧ (φ g).active = g.active ∧
      ((φ g).outcome = .question ↔ g.outcome = .question)

/-- Of the other tasks, at most those change that have not started. -/
def Core.Aside (c c' : Core) (taskId : String) : Prop :=
  ∀ t ∈ c.tasks, t.id ≠ taskId → t.status.blockable = false → t ∈ c'.tasks

section Frames
variable {c c' c'' : Core} {taskId : String}

theorem Core.Calm.of_eq (h : c'.segments = c.segments) : c.Calm c' :=
  ⟨id, by rw [h, List.map_id], fun _ _ => ⟨rfl, rfl, Iff.rfl⟩⟩

theorem Core.Calm.trans (h : c.Calm c') (h' : c'.Calm c'') : c.Calm c'' := by
  obtain ⟨φ, hr, hφ⟩ := h
  obtain ⟨ψ, hr', hψ⟩ := h'
  refine ⟨ψ ∘ φ, by rw [hr', hr, List.map_map], fun g hg => ?_⟩
  obtain ⟨h1, h2, h3⟩ := hφ g hg
  have hm : φ g ∈ c'.segments := by rw [Table.mem_def, hr]; exact List.mem_map_of_mem hg
  obtain ⟨k1, k2, k3⟩ := hψ (φ g) hm
  exact ⟨k1.trans h1, k2.trans h2, k3.trans h3⟩

theorem calm_updateSegments {p : Segment → Bool} {f : Segment → Segment}
    {hf : ∀ g, (f g).id = g.id} (h : ∀ g ∈ c.segments, p g = true → (f g).static = g.static ∧
      (f g).active = g.active ∧ ((f g).outcome = .question ↔ g.outcome = .question)) :
    c.Calm (c.updateSegments p f hf) := by
  refine ⟨Table.patch p f, rfl, fun g hg => ?_⟩
  by_cases hp : p g = true
  · rw [Table.patch_pos hp]; exact h g hg hp
  · rw [Table.patch_neg (by simpa using hp)]; exact ⟨rfl, rfl, Iff.rfl⟩

theorem Core.Aside.of_eq (h : c'.tasks = c.tasks) : c.Aside c' taskId :=
  fun _ ht _ _ => h ▸ ht

theorem Core.Aside.trans (h : c.Aside c' taskId) (h' : c'.Aside c'' taskId) :
    c.Aside c'' taskId := fun t ht hid hb => h' t (h t ht hid hb) hid hb

theorem aside_setTask {f : Task → Task} {hf : ∀ t, (f t).id = t.id} :
    c.Aside (c.setTask taskId f hf) taskId :=
  fun _ ht hid _ => Core.mem_setTask.mpr (.inr ⟨ht, hid⟩)

theorem aside_setTaskStatus (st : TaskStatus) : c.Aside (c.setTaskStatus taskId st) taskId :=
  aside_setTask

theorem aside_enqueue (st : TaskStatus) : c.Aside (c.enqueue taskId st) taskId :=
  fun _ ht hid _ => Core.mem_enqueue.mpr (.inr ⟨ht, hid⟩)

theorem aside_releaseReady : c.Aside (releaseReady c) taskId := by
  intro t ht _ hb
  obtain ⟨seq, hrows, -⟩ := (releaseReady_released c).rows
  rw [Table.mem_def, hrows]
  refine List.mem_map.mpr ⟨t, ht, if_neg fun hq => ?_⟩
  rw [releasable_queued hq] at hb
  cases hb

theorem aside_block : c.Aside (blockFailedDependencies c) taskId := by
  intro t ht _ hb
  refine mem_blockFailedDependencies.mpr ⟨t, ht, afterBlocking_spared fun hd => ?_⟩
  rw [hd.blockable] at hb
  cases hb

end Frames

/-! ## The dialogue -/

/-- The task waits for what the question waits for: an answer, or the round of one. -/
def Question.AwaitedBy (q : Question) (t : Task) : Prop :=
  q.taskId = t.id ∧ ((q.status = .open ∧ t.status = .waitingQuestion) ∨
    (q.status = .resumeQueued ∧ t.status = .resumeQueued))

/-- The segment asked the question. -/
def Question.AskedBy (q : Question) (g : Segment) : Prop :=
  g.id = q.segmentId ∧ g.taskId = q.taskId ∧ g.attemptId = q.attemptId ∧ g.outcome = .question

structure Dialogue (c : Core) (questions : Table Question.questionId) : Prop where
  asked : ∀ q ∈ questions, ∃ g ∈ c.segments, q.AskedBy g
  once : ∀ q ∈ questions, ∀ r ∈ questions, q.segmentId = r.segmentId → q.questionId = r.questionId
  latest : ∀ q ∈ questions, q.status = .open ∨ q.status = .resumeQueued →
    ∀ g ∈ c.segments, g.id = q.segmentId → ∀ k ∈ c.segments, k.taskId = g.taskId → k.rank ≤ g.rank
  waiting : ∀ q ∈ questions, q.status = .open → ∀ g ∈ c.segments, g.id = q.segmentId →
    g.active = true ∨ ∃ t ∈ c.tasks, q.AwaitedBy t
  queued : ∀ q ∈ questions, q.status = .resumeQueued → ∃ t ∈ c.tasks, q.AwaitedBy t
  single : ∀ q ∈ questions, q.status = .resumeStarted → ∀ r ∈ questions,
    r.status = .resumeStarted → q.taskId = r.taskId → q.questionId = r.questionId
  open_of : ∀ g ∈ c.segments, g.active = true → g.outcome = .question →
    ∃ q ∈ questions, q.segmentId = g.id ∧ q.status = .open

theorem dialogue_fresh (limits : ConcurrencyLimits) :
    Dialogue (Core.fresh limits) (State.fresh limits).questions := by
  refine ⟨?_, ?_, ?_, ?_, ?_, ?_, ?_⟩ <;> exact fun _ h => absurd h (Table.not_mem_empty _)

section Changes
variable {c c' : Core} {questions : Table Question.questionId} {e : Event} {g : Segment}
  {q r : Question} {t : Task}

theorem Question.AskedBy.of_static {g' : Segment} (h : q.AskedBy g) (hst : g'.static = g.static)
    (hout : g'.outcome = .question) : q.AskedBy g' :=
  ⟨(Segment.static_id hst).trans h.1, (Segment.static_taskId hst).trans h.2.1,
    (Segment.static_attemptId hst).trans h.2.2.1, hout⟩

theorem Dialogue.asker (h : Dialogue c questions) (hq : q ∈ questions) (hg : g ∈ c.segments)
    (hid : g.id = q.segmentId) : q.AskedBy g := by
  obtain ⟨k, hk, hask⟩ := h.asked q hq
  rwa [Table.eq_of_key hg hk (hid.trans hask.1.symm)]

/-- The tasks that wait go on waiting, and nothing happens to segments. -/
theorem Dialogue.calm (h : Dialogue c questions) (hc : c.Calm c')
    (ht : ∀ q ∈ questions, ∀ t ∈ c.tasks, q.AwaitedBy t → t ∈ c'.tasks) :
    Dialogue c' questions := by
  obtain ⟨φ, hr, hφ⟩ := hc
  have hmem : ∀ g ∈ c.segments, φ g ∈ c'.segments := fun g hg => by
    rw [Table.mem_def, hr]; exact List.mem_map_of_mem hg
  have hfrom : ∀ g' ∈ c'.segments, ∃ g ∈ c.segments, φ g = g' := fun g' hg' => by
    rw [Table.mem_def, hr] at hg'; exact List.mem_map.mp hg'
  refine ⟨fun q hq => ?_, h.once, fun q hq hst g' hg' hid k' hk' htask => ?_,
    fun q hq hst g' hg' hid => ?_, fun q hq hst => ?_, h.single, fun g' hg' ha hout => ?_⟩
  · obtain ⟨g, hg, hask⟩ := h.asked q hq
    exact ⟨φ g, hmem g hg, hask.of_static (hφ g hg).1 ((hφ g hg).2.2.mpr hask.2.2.2)⟩
  · obtain ⟨g, hg, rfl⟩ := hfrom g' hg'
    obtain ⟨k, hk, rfl⟩ := hfrom k' hk'
    rw [Segment.static_id (hφ g hg).1] at hid
    rw [Segment.static_taskId (hφ g hg).1, Segment.static_taskId (hφ k hk).1] at htask
    rw [Segment.static_rank (hφ g hg).1, Segment.static_rank (hφ k hk).1]
    exact h.latest q hq hst g hg hid k hk htask
  · obtain ⟨g, hg, rfl⟩ := hfrom g' hg'
    rw [Segment.static_id (hφ g hg).1] at hid
    rw [(hφ g hg).2.1]
    exact (h.waiting q hq hst g hg hid).imp_right fun ⟨t, htm, hw⟩ => ⟨t, ht q hq t htm hw, hw⟩
  · obtain ⟨t, htm, hw⟩ := h.queued q hq hst
    exact ⟨t, ht q hq t htm hw, hw⟩
  · obtain ⟨g, hg, rfl⟩ := hfrom g' hg'
    rw [(hφ g hg).2.1] at ha
    rw [(hφ g hg).2.2] at hout
    rw [Segment.static_id (hφ g hg).1]
    exact h.open_of g hg ha hout

/-- No question waits with a task in another status. -/
theorem not_awaitedBy {st : TaskStatus} (hst : t.status = st) (hw : st ≠ .waitingQuestion)
    (hq : st ≠ .resumeQueued) : ¬ q.AwaitedBy t := by
  rintro ⟨-, ⟨-, h⟩ | ⟨-, h⟩⟩
  · exact hw (hst.symm.trans h)
  · exact hq (hst.symm.trans h)

/-- One task is rewritten that no question waits with. -/
theorem Dialogue.aside {taskId : String} (h : Dialogue c questions) (hc : c.Calm c')
    (ha : c.Aside c' taskId)
    (ht : ∀ q ∈ questions, ∀ t ∈ c.tasks, t.id = taskId → ¬ q.AwaitedBy t) :
    Dialogue c' questions := by
  refine h.calm hc fun q hq t htm hw => ?_
  by_cases hid : t.id = taskId
  · exact absurd hw (ht q hq t htm hid)
  · refine ha t htm hid ?_
    obtain ⟨-, ⟨-, hst⟩ | ⟨-, hst⟩⟩ := hw <;> rw [hst] <;> rfl

/-- A task waits for one question at a time. -/
theorem Dialogue.eq_of_pending (h : Dialogue c questions) (hr : Ranked c) (hq : q ∈ questions)
    (hqs : q.status = .open ∨ q.status = .resumeQueued) (hm : r ∈ questions)
    (hrs : r.status = .open ∨ r.status = .resumeQueued) (hid : q.taskId = r.taskId) : q = r := by
  obtain ⟨g, hg, hask⟩ := h.asked q hq
  obtain ⟨k, hk, hkask⟩ := h.asked r hm
  have htask : k.taskId = g.taskId := hkask.2.1.trans (hid.symm.trans hask.2.1.symm)
  have hle := h.latest q hq hqs g hg hask.1 k hk htask
  have hge := h.latest r hm hrs k hk hkask.1 g hg htask.symm
  obtain rfl : k = g := hr.eq_of_rank hg hk htask (le_antisymm hle hge)
  exact Table.eq_of_key hq hm (h.once q hq r hm (hask.1.symm.trans hkask.1))

theorem mem_asked {segmentId : String} {g' : Segment} (hg : g ∈ c.segments)
    (hid : segmentId = g.id)
    (hg' : g' ∈ (c.updateSegment segmentId (fun g => g.status ≠ .exited && g.outcome = .none)
      (fun g => { g with outcome := .question })).segments) :
    ∃ k ∈ c.segments, g'.static = k.static ∧ g'.active = k.active ∧
      (g'.outcome = .question → k.outcome = .question ∨ k = g) := by
  obtain ⟨k, hk, rfl⟩ := Core.mem_updateSegment.mp hg'
  refine ⟨k, hk, ?_⟩
  unfold Table.patch
  split
  · rename_i hsel
    simp only [Bool.and_eq_true, decide_eq_true_eq] at hsel
    exact ⟨rfl, rfl, fun _ => .inr (Table.eq_of_key hk hg (hsel.1.trans hid))⟩
  · exact ⟨rfl, rfl, .inl⟩

theorem asked_keeps {segmentId : String} {k : Segment} (hid : segmentId = g.id)
    (ha : g.active = true) (hout : g.outcome = .none) (hk : k ∈ c.segments) :
    ∃ g' ∈ (c.updateSegment segmentId (fun g => g.status ≠ .exited && g.outcome = .none)
      (fun g => { g with outcome := .question })).segments,
      g'.static = k.static ∧ (k.outcome = .question ∨ k = g → g'.outcome = .question) := by
  refine ⟨_, Core.mem_updateSegment.mpr ⟨k, hk, rfl⟩, ?_⟩
  unfold Table.patch
  split
  · exact ⟨rfl, fun _ => rfl⟩
  · rename_i hsel
    refine ⟨rfl, fun hx => hx.elim id ?_⟩
    rintro rfl
    simp [hid, hout, Segment.active_iff.mp ha] at hsel

/-- A segment without an outcome has not asked. -/
theorem Dialogue.not_asked (h : Dialogue c questions) (hg : g ∈ c.segments)
    (hout : g.outcome = .none) (hq : q ∈ questions) : q.segmentId ≠ g.id := by
  intro hid
  have hasked := (h.asker hq hg hid.symm).2.2.2
  rw [hout] at hasked
  cases hasked

/-- The active segment asks. -/
theorem Dialogue.ask {questions' : Table Question.questionId} (h : Dialogue c questions)
    (hg : g ∈ c.segments) (ha : g.active = true) (hout : g.outcome = .none) (he : Names e g)
    (hlast : ∀ k ∈ c.segments, k.taskId = g.taskId → k.rank ≤ g.rank)
    (hi : questions.insert? (openQuestion e) = some questions') :
    Dialogue (c.updateSegment e.segmentId (fun g => g.status ≠ .exited && g.outcome = .none)
      (fun g => { g with outcome := .question })) questions' := by
  have hmem : ∀ q ∈ questions', q ∈ questions ∨ q = openQuestion e := fun q hq =>
    (Table.mem_insert hi).mp hq
  refine ⟨fun q hq => ?_, fun q hq r hr hid => ?_, fun q hq hst g' hg' hid k' hk' htask => ?_,
    fun q hq hst g' hg' hid => ?_, fun q hq hst => ?_, fun q hq hst r hr hrs hid => ?_,
    fun g' hg' ha' hout' => ?_⟩
  · rcases hmem q hq with hq | rfl
    · obtain ⟨k, hk, hask⟩ := h.asked q hq
      obtain ⟨g', hg', hst, ho⟩ := asked_keeps he.1 ha hout hk
      exact ⟨g', hg', hask.of_static hst (ho (.inl hask.2.2.2))⟩
    · obtain ⟨g', hg', hst, ho⟩ := asked_keeps he.1 ha hout hg
      refine ⟨g', hg', ?_, ?_, ?_, ho (.inr rfl)⟩
      · exact (Segment.static_id hst).trans he.1.symm
      · exact (Segment.static_taskId hst).trans he.2.1.symm
      · exact (Segment.static_attemptId hst).trans he.2.2.symm
  · rcases hmem q hq with hq | rfl <;> rcases hmem r hr with hr | rfl
    · exact h.once q hq r hr hid
    · exact absurd (hid.trans he.1) (h.not_asked hg hout hq)
    · exact absurd (hid.symm.trans he.1) (h.not_asked hg hout hr)
    · rfl
  · obtain ⟨l, hl, hlst, -⟩ := mem_asked hg he.1 hg'
    obtain ⟨k, hk, hkst, -⟩ := mem_asked hg he.1 hk'
    rw [Segment.static_id hlst] at hid
    rw [Segment.static_taskId hlst, Segment.static_taskId hkst] at htask
    rw [Segment.static_rank hlst, Segment.static_rank hkst]
    rcases hmem q hq with hq | rfl
    · exact h.latest q hq hst l hl hid k hk htask
    · obtain rfl : l = g := Table.eq_of_key hl hg (hid.trans he.1)
      exact hlast k hk htask
  · obtain ⟨l, hl, hlst, hact, -⟩ := mem_asked hg he.1 hg'
    rw [Segment.static_id hlst] at hid
    rw [hact]
    rcases hmem q hq with hq | rfl
    · exact h.waiting q hq hst l hl hid
    · exact .inl (Table.eq_of_key hl hg (hid.trans he.1) ▸ ha)
  · rcases hmem q hq with hq | rfl
    · exact h.queued q hq hst
    · cases hst
  · rcases hmem q hq with hq | rfl
    · rcases hmem r hr with hr | rfl
      · exact h.single q hq hst r hr hrs hid
      · cases hrs
    · cases hst
  · obtain ⟨k, hk, hkst, hact, ho⟩ := mem_asked hg he.1 hg'
    rw [Segment.static_id hkst]
    rcases ho hout' with ho | rfl
    · obtain ⟨q, hq, hqs⟩ := h.open_of k hk (hact ▸ ha') ho
      exact ⟨q, (Table.mem_insert hi).mpr (.inl hq), hqs⟩
    · exact ⟨_, (Table.mem_insert hi).mpr (.inr rfl), he.1, rfl⟩

theorem mem_answered {id hash text : String} (hq : q ∈ questions) (hid : q.questionId = id)
    (hr : r ∈ questions.update (fun r => r.questionId = id && r.status = .open)
      (fun r => { r with status := .resumeQueued, answerHash := hash, answerText := text })) :
    r = { q with status := .resumeQueued, answerHash := hash, answerText := text } ∨
      r ∈ questions ∧ (q.status = .open → r ≠ q) := by
  obtain ⟨r, hrm, rfl⟩ := Table.mem_update.mp hr
  unfold Table.patch
  split
  · rename_i hsel
    simp only [Bool.and_eq_true, decide_eq_true_eq] at hsel
    exact .inl (by rw [Table.eq_of_key hrm hq (hsel.1.trans hid.symm)])
  · rename_i hsel
    exact .inr ⟨hrm, fun hopen => by rintro rfl; simp [hopen, hid] at hsel⟩

theorem answered_keeps {id hash text : String} (hq : q ∈ questions) (hid : q.questionId = id)
    (hr : r ∈ questions) (hne : r ≠ q) :
    r ∈ questions.update (fun r => r.questionId = id && r.status = .open)
      (fun r => { r with status := .resumeQueued, answerHash := hash, answerText := text }) := by
  refine Table.mem_update_of_not hr ?_
  have hdiffers : r.questionId ≠ id := fun heq => hne (Table.eq_of_key hr hq (heq.trans hid.symm))
  simp [hdiffers]

/-- The tasks that other questions wait with are not the one that is queued. -/
theorem Dialogue.others_wait (h : Dialogue c questions) (hr : Ranked c) (ht : t ∈ c.tasks)
    (hst : t.status = .waitingQuestion) (hq : q ∈ questions) (hqt : q.taskId = t.id)
    (hopen : q.status = .open) (hm : r ∈ questions) (hne : r ≠ q) {u : Task} (hu : u ∈ c.tasks)
    (hw : r.AwaitedBy u) : u ∈ (c.enqueue t.id .resumeQueued).tasks := by
  refine Core.mem_enqueue.mpr (.inr ⟨hu, fun hid => ?_⟩)
  obtain rfl : u = t := Table.eq_of_key hu ht hid
  obtain ⟨hrt, ⟨ho, -⟩ | ⟨-, hqd⟩⟩ := hw
  · exact hne (h.eq_of_pending hr hm (.inl ho) hq (.inl hopen) (hrt.trans hqt.symm))
  · rw [hst] at hqd
    cases hqd

/-- The open question is answered, and its task queued. -/
theorem Dialogue.answer {hash text : String} (h : Dialogue c questions) (hr : Ranked c)
    (ht : t ∈ c.tasks) (hst : t.status = .waitingQuestion)
    (hidle : ∀ g ∈ c.segments, g.active = true → g.taskId ≠ t.id) (hq : q ∈ questions)
    (hqt : q.taskId = t.id) (hopen : q.status = .open) :
    Dialogue (c.enqueue t.id .resumeQueued) (questions.update
      (fun r => r.questionId = q.questionId && r.status = .open)
      (fun r => { r with status := .resumeQueued, answerHash := hash, answerText := text })) := by
  refine ⟨fun r hrm => ?_, fun r hrm l hl hid => ?_, fun r hrm hrs => ?_,
    fun r hrm hrs g hg hid => ?_, fun r hrm hrs => ?_, fun r hrm hrs l hl hls hid => ?_,
    fun g hg ha hout => ?_⟩
  · rcases mem_answered hq rfl hrm with rfl | ⟨hrm, -⟩
    · exact h.asked q hq
    · exact h.asked r hrm
  · rcases mem_answered hq rfl hrm with rfl | ⟨hrm, -⟩ <;>
      rcases mem_answered hq rfl hl with rfl | ⟨hl, -⟩
    · rfl
    · exact h.once q hq l hl hid
    · exact h.once r hrm q hq hid
    · exact h.once r hrm l hl hid
  · rcases mem_answered hq rfl hrm with rfl | ⟨hrm, -⟩
    · exact h.latest q hq (.inl hopen)
    · exact h.latest r hrm hrs
  · rcases mem_answered hq rfl hrm with rfl | ⟨hrm, hne⟩
    · cases hrs
    · exact (h.waiting r hrm hrs g hg hid).imp_right fun ⟨u, hu, hw⟩ =>
        ⟨u, h.others_wait hr ht hst hq hqt hopen hrm (hne hopen) hu hw, hw⟩
  · rcases mem_answered hq rfl hrm with rfl | ⟨hrm, hne⟩
    · exact ⟨_, Core.mem_enqueue.mpr (.inl ⟨t, ht, rfl, rfl⟩), hqt, .inr ⟨rfl, rfl⟩⟩
    · obtain ⟨u, hu, hw⟩ := h.queued r hrm hrs
      exact ⟨u, h.others_wait hr ht hst hq hqt hopen hrm (hne hopen) hu hw, hw⟩
  · rcases mem_answered hq rfl hrm with rfl | ⟨hrm, -⟩
    · cases hrs
    · rcases mem_answered hq rfl hl with rfl | ⟨hl, -⟩
      · cases hls
      · exact h.single r hrm hrs l hl hls hid
  · obtain ⟨r, hrm, hrg, hrs⟩ := h.open_of g hg ha hout
    refine ⟨r, answered_keeps hq rfl hrm ?_, hrg, hrs⟩
    rintro rfl
    exact hidle g hg ha ((h.asker hrm hg hrg.symm).2.1.trans hqt)

theorem mem_settled {used : Int} {g' : Segment} (hg : g ∈ c.segments)
    (hg' : g' ∈ (c.settle g.id used).segments) : ∃ k ∈ c.segments, g'.static = k.static ∧
      g'.outcome = k.outcome ∧ (k = g ∨ g'.active = k.active) ∧
        (g'.active = true → k.active = true) := by
  obtain ⟨k, hk, rfl⟩ := Core.mem_updateSegment.mp hg'
  refine ⟨k, hk, ?_⟩
  unfold Table.patch
  split
  · rename_i hsel
    simp only [Bool.and_true, decide_eq_true_eq] at hsel
    exact ⟨rfl, rfl, .inl (Table.eq_of_key hk hg hsel), fun hx => by cases hx⟩
  · exact ⟨rfl, rfl, .inr rfl, id⟩

theorem settled_keeps {segmentId : String} {used : Int} {k : Segment} (hk : k ∈ c.segments) :
    ∃ g' ∈ (c.settle segmentId used).segments, g'.static = k.static ∧
      g'.outcome = k.outcome := by
  refine ⟨_, Core.mem_updateSegment.mpr ⟨k, hk, rfl⟩, ?_⟩
  unfold Table.patch
  split <;> exact ⟨rfl, rfl⟩

/-- A round that has started ends, and nothing else is said of the questions. -/
theorem mem_resolveRounds (hr : r ∈ resolveRounds questions e) : ∃ q ∈ questions,
    r.questionId = q.questionId ∧ r.taskId = q.taskId ∧ r.attemptId = q.attemptId ∧
      r.segmentId = q.segmentId ∧ (r.status = .resolved ∨ r = q) := by
  obtain ⟨q, hq, rfl⟩ := Table.mem_update.mp hr
  refine ⟨q, hq, ?_⟩
  unfold Table.patch
  split
  · exact ⟨rfl, rfl, rfl, rfl, .inl rfl⟩
  · exact ⟨rfl, rfl, rfl, rfl, .inr rfl⟩

/-- The segment exits, and its question goes on waiting with the task. -/
theorem Dialogue.exit {used : Int} (h : Dialogue c questions)
    (hbusy : ∀ q : Question, ¬ q.AwaitedBy t) (hg : g ∈ c.segments) (ht : t ∈ c.tasks)
    (hid : t.id = g.taskId) (hsegs : c'.segments = (c.settle g.id used).segments)
    (haside : c.Aside c' t.id)
    (hwait : g.outcome = .question → ∃ u ∈ c'.tasks, u.id = t.id ∧ u.status = .waitingQuestion) :
    Dialogue c' (resolveRounds questions e) := by
  have hstays : ∀ q : Question, ∀ u ∈ c.tasks, q.AwaitedBy u → u ∈ c'.tasks := by
    intro q u hu hw
    refine haside u hu (fun huid => ?_) ?_
    · exact hbusy q (Table.eq_of_key hu ht huid ▸ hw)
    · obtain ⟨-, ⟨-, hst⟩ | ⟨-, hst⟩⟩ := hw <;> rw [hst] <;> rfl
  refine ⟨fun r' hr' => ?_, fun r' hr' l' hl' hseg => ?_,
    fun r' hr' hst g' hg' hgid k' hk' htask => ?_, fun r' hr' hst g' hg' hgid => ?_,
    fun r' hr' hst => ?_, fun r' hr' hst l' hl' hlst htask => ?_, fun g' hg' ha' hout' => ?_⟩
  · obtain ⟨r, hr, -, h2, h3, h4, -⟩ := mem_resolveRounds hr'
    obtain ⟨k, hk, hask⟩ := h.asked r hr
    obtain ⟨g', hg', hst, hout⟩ := settled_keeps hk
    obtain ⟨k1, k2, k3, k4⟩ := hask.of_static hst (hout.trans hask.2.2.2)
    exact ⟨g', hsegs ▸ hg', k1.trans h4.symm, k2.trans h2.symm, k3.trans h3.symm, k4⟩
  · obtain ⟨r, hr, h1, -, -, h4, -⟩ := mem_resolveRounds hr'
    obtain ⟨l, hl, k1, -, -, k4, -⟩ := mem_resolveRounds hl'
    rw [h1, k1]
    exact h.once r hr l hl (h4.symm.trans (hseg.trans k4))
  · obtain ⟨r, hr, -, -, -, -, hres | rfl⟩ := mem_resolveRounds hr'
    · rw [hres] at hst; simp at hst
    · obtain ⟨l, hl, hlst, -⟩ := mem_settled hg (hsegs ▸ hg')
      obtain ⟨k, hk, hkst, -⟩ := mem_settled hg (hsegs ▸ hk')
      rw [Segment.static_id hlst] at hgid
      rw [Segment.static_taskId hlst, Segment.static_taskId hkst] at htask
      rw [Segment.static_rank hlst, Segment.static_rank hkst]
      exact h.latest r' hr hst l hl hgid k hk htask
  · obtain ⟨r, hr, -, -, -, -, hres | rfl⟩ := mem_resolveRounds hr'
    · rw [hres] at hst; cases hst
    · obtain ⟨l, hl, hlst, -, hact, -⟩ := mem_settled hg (hsegs ▸ hg')
      rw [Segment.static_id hlst] at hgid
      have hask := h.asker hr hl hgid
      rcases hact with rfl | hact
      · obtain ⟨u, hu, huid, hust⟩ := hwait hask.2.2.2
        exact .inr ⟨u, hu, hask.2.1.symm.trans (hid.symm.trans huid.symm), .inl ⟨hst, hust⟩⟩
      · rw [hact]
        exact (h.waiting r' hr hst l hl hgid).imp_right fun ⟨u, hu, hw⟩ =>
          ⟨u, hstays r' u hu hw, hw⟩
  · obtain ⟨r, hr, -, -, -, -, hres | rfl⟩ := mem_resolveRounds hr'
    · rw [hres] at hst; cases hst
    · obtain ⟨u, hu, hw⟩ := h.queued r' hr hst
      exact ⟨u, hstays r' u hu hw, hw⟩
  · obtain ⟨r, hr, -, -, -, -, hres | rfl⟩ := mem_resolveRounds hr'
    · rw [hres] at hst; cases hst
    · obtain ⟨l, hl, -, -, -, -, hres | rfl⟩ := mem_resolveRounds hl'
      · rw [hres] at hlst; cases hlst
      · exact h.single r' hr hst l' hl hlst htask
  · obtain ⟨k, hk, hkst, hout, -, hact⟩ := mem_settled hg (hsegs ▸ hg')
    obtain ⟨q, hq, hqg, hqs⟩ := h.open_of k hk (hact ha') (hout.symm.trans hout')
    refine ⟨q, Table.mem_update_of_not hq ?_, hqg.trans (Segment.static_id hkst).symm, hqs⟩
    simp [hqs]

end Changes

/-! ## Claims -/

section Claims
variable {d : DB} {env : Env} {s s' : State} {hostId : String} {epoch : Nat} {slots : Int}
  {t : Task} {place : Placement} {cmd : LaunchCommand} {q : Question}

/-- No question of a task that can be claimed is open. -/
theorem Dialogue.not_open (h : Dialogue s.toCore s.questions) (hs : Slots d.toPlatform s.toCore)
    (ht : t ∈ s.tasks) (hc : t.status.claimable = true) (hq : q ∈ s.questions)
    (hid : q.taskId = t.id) : q.status ≠ .open := by
  intro hopen
  obtain ⟨g, hg, hask⟩ := h.asked q hq
  rcases h.waiting q hq hopen g hg hask.1 with ha | ⟨u, hu, hut, ⟨-, hst⟩ | ⟨hqs, -⟩⟩
  · exact hs.idle ht (TaskStatus.idle_of_claimable hc) g hg ha (hask.2.1.trans hid)
  · obtain rfl : u = t := Table.eq_of_key hu ht (hut.symm.trans hid)
    rw [hst] at hc
    cases hc
  · rw [hopen] at hqs
    cases hqs

/-- A queued answer is the one the next launch of its task carries. -/
theorem Dialogue.resumed (h : Dialogue s.toCore s.questions) (hr : Ranked s.toCore)
    (ht : t ∈ s.tasks) (hplace : s.toCore.place env t = .ok place) (hq : q ∈ s.questions)
    (hid : q.taskId = t.id) (hqs : q.status = .resumeQueued) :
    s.resumedQuestion t place = some q := by
  have hst : t.status = .resumeQueued := by
    obtain ⟨u, hu, hut, ⟨ho, -⟩ | ⟨-, hst⟩⟩ := h.queued q hq hqs
    · rw [hqs] at ho; cases ho
    · obtain rfl : u = t := Table.eq_of_key hu ht (hut.symm.trans hid)
      exact hst
  obtain ⟨g, hg, hask⟩ := h.asked q hq
  simp only [Core.place, if_pos hst, Core.placeResume, bind_ok_iff, expect_ok, require_ok,
    exists_const, Except.ok.injEq] at hplace
  obtain ⟨a, ha, -, rfl⟩ := hplace
  have htask : g.taskId = t.id := hask.2.1.trans hid
  have hlast : s.latestSegment t.id = some g := hr.latestSegment_iff.mpr
    ⟨hg, htask, fun k hk hkt => h.latest q hq (.inr hqs) g hg hask.1 k hk (hkt.trans htask.symm)⟩
  have hattempt : q.attemptId = a.id := hask.2.2.1.symm.trans (hr.latestAttempt hlast ha)
  rw [State.resumedQuestion, if_pos hst]
  cases hl : s.latestQuestion t.id a.id .resumeQueued with
  | none =>
    have hnil := List.filter_eq_nil_iff.mp (List.argmax_eq_none.mp hl) q hq
    simp [hid, hattempt, hqs] at hnil
  | some r =>
    obtain ⟨hrm, hrt, -, hrs⟩ := latestQuestion_spec hl
    rw [h.eq_of_pending hr hrm (.inr hrs) hq (.inr hqs) (hrt.trans hid.symm)]

/-- The round of the answer that is carried starts. -/
theorem startResume_cases {r' : Question}
    (hr' : r' ∈ startResume s.questions (s.resumedQuestion t place)) :
    ∃ r ∈ s.questions, r'.questionId = r.questionId ∧ r'.taskId = r.taskId ∧
      r'.attemptId = r.attemptId ∧ r'.segmentId = r.segmentId ∧
        (r' = r ∧ s.resumedQuestion t place ≠ some r ∨
          r'.status = .resumeStarted ∧ s.resumedQuestion t place = some r) := by
  obtain ⟨r, hrm, rfl⟩ := Table.mem_update.mp hr'
  refine ⟨r, hrm, ?_⟩
  unfold Table.patch
  split
  · rename_i hsel
    simp only [Bool.and_eq_true, decide_eq_true_eq] at hsel
    exact ⟨rfl, rfl, rfl, rfl, .inr ⟨rfl, startResume_selects hrm hsel.1⟩⟩
  · rename_i hsel
    refine ⟨rfl, rfl, rfl, rfl, .inl ⟨rfl, fun hres => ?_⟩⟩
    simp [hres, (resumedQuestion_spec hres).2.2.2] at hsel

/-- A question that still waits is one of another task. -/
theorem Dialogue.other_task (h : Dialogue s.toCore s.questions) (hs : Slots d.toPlatform s.toCore)
    (hr : Ranked s.toCore) (ht : t ∈ s.tasks) (hclaim : t.status.claimable = true)
    (hplace : s.toCore.place env t = .ok place) (hq : q ∈ s.questions)
    (hne : s.resumedQuestion t place ≠ some q) (hqs : q.status = .open ∨ q.status = .resumeQueued) :
    q.taskId ≠ t.id := by
  intro hid
  rcases hqs with hqs | hqs
  · exact h.not_open hs ht hclaim hq hid hqs
  · exact hne (h.resumed hr ht hplace hq hid hqs)

/-- The new segment has asked nothing. -/
theorem Dialogue.asker_before {new : Segment} {segments : Table Segment.id}
    (h : Dialogue s.toCore s.questions) (hi : s.segments.insert? new = some segments)
    (hq : q ∈ s.questions) {g : Segment} (hg : g ∈ segments) (hid : g.id = q.segmentId) :
    g ∈ s.segments := by
  rcases (Table.mem_insert hi).mp hg with hg | rfl
  · exact hg
  · obtain ⟨k, hk, hask⟩ := h.asked q hq
    exact absurd (hask.1.trans hid.symm) ((Table.insert?_eq_some.mp hi).1 k hk)

/-- A round that has started belongs to a task with an active segment. -/
theorem Rounds.not_started (hro : Rounds s)
    (hidle : ∀ g ∈ s.segments, g.active = true → g.taskId ≠ t.id) (hq : q ∈ s.questions)
    (hqs : q.status = .resumeStarted) : q.taskId ≠ t.id := by
  intro heq
  obtain ⟨g, hg, ha, htask, -⟩ := hro.started q hq hqs
  exact hidle g hg ha (htask.trans heq)

/-- The task is launched, and the round of its answer starts. -/
theorem Dialogue.start (h : Dialogue s.toCore s.questions) (hs : Slots d.toPlatform s.toCore)
    (hr : Ranked s.toCore) (hro : Rounds s)
    (hc : Claimed d env s hostId epoch slots t place s' cmd) :
    Dialogue s'.toCore s'.questions := by
  obtain ⟨c₁, c₂, capabilities, h₁, h₂, -, rfl, -⟩ := launch_cases hc.launched
  obtain ⟨host, -, -, -, hsel⟩ := hc.host
  obtain ⟨ht, -, hclaim, -⟩ := selectReady_spec hsel
  obtain ⟨-, -, htasks, hsegs⟩ := startAttempt_frame h₁
  obtain ⟨segments, hi, rfl⟩ := startSegment_cases h₂
  rw [hsegs] at hi
  have hidle := hs.idle ht (TaskStatus.idle_of_claimable hclaim)
  have hother : ∀ r ∈ s.questions, s.resumedQuestion t place ≠ some r →
      r.status = .open ∨ r.status = .resumeQueued → r.taskId ≠ t.id := fun r hrm =>
    h.other_task hs hr ht hclaim hc.placed hrm
  have hleft : ∀ r ∈ s.questions, r.taskId ≠ t.id → ∀ u ∈ s.tasks, r.AwaitedBy u →
      u ∈ (Core.setTaskStatus { c₁ with segments := segments } t.id .running).tasks := by
    intro r hrm hne u hu hw
    refine Core.mem_setTaskStatus.mpr (.inr ⟨?_, fun hid => hne (hw.1.trans hid)⟩)
    exact htasks ▸ hu
  refine ⟨fun r' hr' => ?_, fun r' hr' l' hl' hid => ?_, fun r' hr' hst g hg hid k hk htask => ?_,
    fun r' hr' hst g hg hid => ?_, fun r' hr' hst => ?_, fun r' hr' hst l' hl' hlst hid => ?_,
    fun g hg ha hout => ?_⟩
  · obtain ⟨r, hrm, -, h2, h3, h4, -⟩ := startResume_cases hr'
    obtain ⟨g, hg, k1, k2, k3, k4⟩ := h.asked r hrm
    exact ⟨g, (Table.mem_insert hi).mpr (.inl hg), k1.trans h4.symm, k2.trans h2.symm,
      k3.trans h3.symm, k4⟩
  · obtain ⟨r, hrm, h1, -, -, h4, -⟩ := startResume_cases hr'
    obtain ⟨l, hl, k1, -, -, k4, -⟩ := startResume_cases hl'
    rw [h1, k1]
    exact h.once r hrm l hl (h4.symm.trans (hid.trans k4))
  · obtain ⟨r, hrm, -, -, -, -, ⟨rfl, hne⟩ | ⟨hres, -⟩⟩ := startResume_cases hr'
    · have hgm := h.asker_before hi hrm hg hid
      rcases (Table.mem_insert hi).mp hk with hk | rfl
      · exact h.latest r' hrm hst g hgm hid k hk htask
      · have := (h.asker hrm hgm hid).2.1
        exact absurd (this.symm.trans htask.symm) (hother r' hrm hne hst)
    · rw [hres] at hst; simp at hst
  · obtain ⟨r, hrm, -, -, -, -, ⟨rfl, hne⟩ | ⟨hres, -⟩⟩ := startResume_cases hr'
    · exact (h.waiting r' hrm hst g (h.asker_before hi hrm hg hid) hid).imp_right fun ⟨u, hu, hw⟩ =>
        ⟨u, hleft r' hrm (hother r' hrm hne (.inl hst)) u hu hw, hw⟩
    · rw [hres] at hst; cases hst
  · obtain ⟨r, hrm, -, -, -, -, ⟨rfl, hne⟩ | ⟨hres, -⟩⟩ := startResume_cases hr'
    · obtain ⟨u, hu, hw⟩ := h.queued r' hrm hst
      exact ⟨u, hleft r' hrm (hother r' hrm hne (.inr hst)) u hu hw, hw⟩
    · rw [hres] at hst; cases hst
  · obtain ⟨r, hrm, h1, h2, -, -, hr₁⟩ := startResume_cases hr'
    obtain ⟨l, hl, k1, k2, -, -, hl₁⟩ := startResume_cases hl'
    rcases hr₁ with ⟨rfl, -⟩ | ⟨-, hres⟩ <;> rcases hl₁ with ⟨rfl, -⟩ | ⟨-, hlres⟩
    · exact h.single r' hrm hst l' hl hlst hid
    · exact absurd (hid.trans (k2.trans (resumedQuestion_spec hlres).2.1))
        (hro.not_started hidle hrm hst)
    · exact absurd (hid.symm.trans (h2.trans (resumedQuestion_spec hres).2.1))
        (hro.not_started hidle hl hlst)
    · rw [hres, Option.some.injEq] at hlres
      rw [h1, k1, hlres]
  · rcases (Table.mem_insert hi).mp hg with hg | rfl
    · obtain ⟨r, hrm, hrg, hrs⟩ := h.open_of g hg ha hout
      refine ⟨r, Table.mem_update_of_not (h := by intro _; rfl) hrm ?_, hrg, hrs⟩
      simp [hrs]
    · cases hout

end Claims
end Orchestrator.Store
