import Orchestrator.Invariants.Slots

/-!
# The status diagram of a task

Every move first turns tasks along one arc of the diagram (one task, or all the
tasks the sweep of stopping segments reaches), and then leaves the dependents
alone, releases them or blocks them. `Move.split` makes this division, and the
invariants about statuses are derived from it instead of from the moves.
-/
namespace Orchestrator.Store
open Library

/-- The statuses an exit leaves. -/
def TaskStatus.settled : TaskStatus → Bool
  | .completed | .resultReady | .waitingQuestion | .failed | .interrupted => true
  | _ => false

/-- The arcs along which an operation turns the tasks it names. -/
inductive Arc : TaskStatus → TaskStatus → Prop
  | claim {s : TaskStatus} (h : s.claimable = true) : Arc s .running
  | stop {s : TaskStatus} (h : s.busy = true) : Arc s .stopping
  | lose {s : TaskStatus} (h : s.busy = true) : Arc s .unknown
  | exit {s s' : TaskStatus} (h : s.busy = true) (h' : s'.settled = true) : Arc s s'
  | cancel {s : TaskStatus} (h : s.cancellable = true) : Arc s .cancelled
  | accept : Arc .resultReady .completed
  | reject : Arc .resultReady .failed
  | resume {s : TaskStatus} (h : s = .interrupted ∨ s = .waitingQuestion) : Arc s .resumeQueued
  | retry : Arc .failed .ready

/-- The first half of a move: rows are as before, or belong to a task that turned
to `st`. A segment starts only for a task that was waiting to be claimed. -/
structure Turn (st : TaskStatus) (c c' : Core) : Prop extends Kept c c' where
  turned : ∀ u ∈ c'.tasks, u ∈ c.tasks ∨
    u.status = st ∧ ∀ t ∈ c.tasks, t.id = u.id → Arc t.status st
  owners : ∀ g' ∈ c'.segments, (∃ g ∈ c.segments, g.taskId = g'.taskId) ∨
    ∃ t ∈ c.tasks, t.id = g'.taskId ∧ t.status.claimable = true
  attempts_of : ∀ taskId, c'.taskAttempts taskId = c.taskAttempts taskId ∨
    ∀ u ∈ c'.tasks, u.id = taskId → u.status = .running
  retried : st = .ready → ∀ u ∈ c'.tasks, u ∈ c.tasks ∨
    ¬ c.attemptsExhausted u.budgetGroupId u.maxAttempts
  launched : st = .running → ∀ u ∈ c'.tasks, u ∈ c.tasks ∨ ∃ g ∈ c'.segments, g.taskId = u.id

/-- Rewrites that leave tasks, owners and attempt counts alone. -/
structure Still (c c' : Core) : Prop extends Kept c c' where
  tasks_eq : c'.tasks = c.tasks
  owner_of : ∀ g' ∈ c'.segments, ∃ g ∈ c.segments, g.taskId = g'.taskId
  taskAttempts_eq : ∀ taskId, c'.taskAttempts taskId = c.taskAttempts taskId

section Turns
variable {c c' c'' : Core} {t : Task} {st : TaskStatus}

theorem Turn.task (h : Turn st c c') (ht : t ∈ c.tasks) :
    ∃ u ∈ c'.tasks, u.static = t.static ∧ (u = t ∨ u.status = st ∧ Arc t.status st) := by
  obtain ⟨u, hu, hst⟩ := h.toKept.task ht
  refine ⟨u, hu, hst, ?_⟩
  rcases h.turned u hu with hold | ⟨hs, harc⟩
  · exact .inl (Table.eq_of_key hold ht (Task.static_id hst))
  · exact .inr ⟨hs, harc t ht (Task.static_id hst).symm⟩

theorem Still.refl (c : Core) : Still c c := ⟨.refl c, rfl, fun g hg => ⟨g, hg, rfl⟩, fun _ => rfl⟩

theorem Still.trans (h : Still c c') (h' : Still c' c'') : Still c c'' := by
  refine ⟨h.toKept.trans h'.toKept, h'.tasks_eq.trans h.tasks_eq, fun g hg => ?_, fun id => ?_⟩
  · obtain ⟨k, hk, hkg⟩ := h'.owner_of g hg
    obtain ⟨l, hl, hlk⟩ := h.owner_of k hk
    exact ⟨l, hl, hlk.trans hkg⟩
  · rw [h'.taskAttempts_eq, h.taskAttempts_eq]

theorem Quiet.still (h : Quiet c c') : Still c c' := by
  refine ⟨h.kept, h.tasks, fun g' hg => ?_, fun id => by rw [Core.taskAttempts, h.attempts]; rfl⟩
  obtain ⟨g, hg, hst, -, -⟩ := h.of_mem hg
  exact ⟨g, hg, (Segment.static_taskId hst).symm⟩

theorem updateSegments_still {p : Segment → Bool} {f : Segment → Segment}
    {hf : ∀ g, (f g).id = g.id} (h : ∀ g, (f g).static = g.static) :
    Still c (c.updateSegments p f hf) := by
  refine ⟨updateSegments_kept h, rfl, fun g' hg' => ?_, fun _ => rfl⟩
  obtain ⟨g, hg, rfl⟩ := (Table.mem_update (h := hf)).mp hg'
  exact ⟨g, hg, (Table.patch_field Segment.taskId (fun g => Segment.static_taskId (h g)) g).symm⟩

theorem setAttemptStatus_still {id : String} (ast : AttemptStatus) :
    Still c (c.setAttemptStatus id ast) :=
  ⟨setAttemptStatus_kept ast, rfl, fun g hg => ⟨g, hg, rfl⟩,
    fun taskId => Core.taskAttempts_setAttemptStatus taskId⟩

theorem Still.turn (h : Still c c') (st : TaskStatus) : Turn st c c' :=
  ⟨h.toKept, fun _ hu => .inl (h.tasks_eq ▸ hu), fun g hg => .inl (h.owner_of g hg),
    fun id => .inl (h.taskAttempts_eq id), fun _ _ hu => .inl (h.tasks_eq ▸ hu),
    fun _ _ hu => .inl (h.tasks_eq ▸ hu)⟩

/-- The task a rewrite of one row names is the row it turns. -/
theorem arc_of_row (ht : t ∈ c.tasks) (harc : Arc t.status st) {u : Task} (hid : u.id = t.id) :
    ∀ w ∈ c.tasks, w.id = u.id → Arc w.status st := by
  intro w hw hwid
  obtain rfl : w = t := Table.eq_of_key hw ht (hwid.trans hid)
  exact harc

theorem Still.setTaskStatus (h : Still c c') (ht : t ∈ c.tasks) (harc : Arc t.status st)
    (hst : st ≠ .ready ∧ st ≠ .running) : Turn st c (c'.setTaskStatus t.id st) := by
  refine ⟨h.toKept.trans (setTaskStatus_kept st), fun u hu => ?_,
    fun g hg => .inl (h.owner_of g hg), fun id => .inl (h.taskAttempts_eq id),
    fun h => absurd h hst.1, fun h => absurd h hst.2⟩
  rcases Core.mem_setTaskStatus.mp hu with ⟨v, -, hid, rfl⟩ | ⟨hu, -⟩
  · exact .inr ⟨rfl, arc_of_row ht harc hid⟩
  · exact .inl (h.tasks_eq ▸ hu)

/-- Later updates that leave tasks alone do not disturb a turn. -/
theorem Turn.still (h : Turn st c c') (h' : Still c' c'') : Turn st c c'' := by
  refine ⟨h.toKept.trans h'.toKept, h'.tasks_eq ▸ h.turned, fun g hg => ?_, fun id => ?_,
    h'.tasks_eq ▸ h.retried, fun hst u hu => ?_⟩
  · obtain ⟨k, hk, hkg⟩ := h'.owner_of g hg
    exact hkg ▸ h.owners k hk
  · rw [h'.taskAttempts_eq, h'.tasks_eq]; exact h.attempts_of id
  · refine (h.launched hst u (h'.tasks_eq ▸ hu)).imp_right fun ⟨g, hg, hid⟩ => ?_
    obtain ⟨k, hk, hkg⟩ := h'.toKept.segment hg
    exact ⟨k, hk, (Segment.static_taskId hkg).trans hid⟩

theorem resume_turn (ht : t ∈ c.tasks)
    (hs : t.status = .interrupted ∨ t.status = .waitingQuestion) :
    Turn .resumeQueued c (c.enqueue t.id .resumeQueued) := by
  refine ⟨enqueue_kept _, fun u hu => ?_, fun g hg => .inl ⟨g, hg, rfl⟩, fun _ => .inl rfl, by simp,
    by simp⟩
  rcases Core.mem_enqueue.mp hu with ⟨v, -, hid, rfl⟩ | ⟨hu, -⟩
  · exact .inr ⟨rfl, arc_of_row ht (.resume hs) hid⟩
  · exact .inl hu

/-- The rows a retry leaves: its own, ready again, and the others as they were. -/
theorem mem_retry {payload : Option String} {u : Task}
    (hu : u ∈ ((c.setAdapter t.id payload).enqueue t.id .ready).tasks) :
    (u.id = t.id ∧ u.status = .ready) ∨ u ∈ c.tasks := by
  rcases Core.mem_enqueue.mp hu with ⟨v, -, hid, rfl⟩ | ⟨hu, hne⟩
  · exact .inl ⟨hid, rfl⟩
  · cases payload with
    | none => exact .inr hu
    | some payload =>
      rcases Core.mem_setTask.mp hu with ⟨v, -, hid, rfl⟩ | ⟨hu, -⟩
      · exact absurd hid hne
      · exact .inr hu

theorem retry_turn {payload : Option String} (ht : t ∈ c.tasks) (hs : t.status = .failed)
    (hleft : ¬ c.attemptsExhausted t.budgetGroupId t.maxAttempts) :
    Turn .ready c ((c.setAdapter t.id payload).enqueue t.id .ready) := by
  have hk : Kept c ((c.setAdapter t.id payload).enqueue t.id .ready) :=
    (setAdapter_kept payload).trans (enqueue_kept _)
  refine ⟨hk, fun u hu => ?_, fun g hg => .inl ⟨g, ?_, rfl⟩, fun id => .inl ?_, fun _ u hu => ?_,
    by simp⟩
  · exact (mem_retry hu).symm.imp_right fun ⟨hid, hst⟩ => ⟨hst, arc_of_row ht (hs ▸ .retry) hid⟩
  · cases payload <;> exact hg
  · cases payload <;> rfl
  · refine (mem_retry hu).symm.imp_right fun ⟨hid, _⟩ => ?_
    have hst := static_of_kept hk ht hu hid
    rwa [Task.static_budgetGroupId hst, Task.static_maxAttempts hst]

end Turns

/-! ## The turn of each move -/

section Moves
variable {d : DB} {c c' : Core} {t : Task}

theorem startAttempt_attempts {place : Placement} (h : c.startAttempt t place = .ok c')
    {taskId : String} (hne : t.id ≠ taskId) : c'.taskAttempts taskId = c.taskAttempts taskId := by
  unfold Core.startAttempt at h
  split at h
  · cases h; exact Core.taskAttempts_setAttemptStatus taskId
  · simp only [bind_ok_iff, require_ok, expect_ok, exists_const, Except.ok.injEq] at h
    obtain ⟨-, attempts, hi, rfl⟩ := h
    simp [Core.taskAttempts, Table.count_insert hi, hne]

theorem claim_turn {place : Placement} {g : Segment} {c₁ c₂ : Core} (ht : t ∈ c.tasks)
    (hc : t.status.claimable = true) (hg : g.taskId = t.id)
    (hattempt : c.startAttempt t place = .ok c₁) (hsegment : c₁.startSegment g = .ok c₂) :
    Turn .running c (c₂.setTaskStatus t.id .running) := by
  have hk : Kept c (c₂.setTaskStatus t.id .running) :=
    ((startAttempt_kept hattempt).trans (startSegment_kept hsegment)).trans (setTaskStatus_kept _)
  obtain ⟨-, -, htasks, hsegs⟩ := startAttempt_frame hattempt
  obtain ⟨segments, hi, rfl⟩ := startSegment_cases hsegment
  refine ⟨hk, fun u hu => ?_, fun k hk => ?_, fun taskId => ?_, by simp, fun _ u hu => ?_⟩
  · rcases Core.mem_setTaskStatus.mp hu with ⟨v, -, hid, rfl⟩ | ⟨hu, -⟩
    · exact .inr ⟨rfl, arc_of_row ht (.claim hc) hid⟩
    · exact .inl (htasks ▸ hu)
  · rcases (Table.mem_insert hi).mp hk with hk | rfl
    · exact .inl ⟨k, hsegs ▸ hk, rfl⟩
    · exact .inr ⟨t, ht, hg.symm, hc⟩
  · by_cases hid : t.id = taskId
    · subst hid
      refine .inr fun u hu huid => ?_
      rcases Core.mem_setTaskStatus.mp hu with ⟨v, -, -, rfl⟩ | ⟨-, hne⟩
      · rfl
      · exact absurd huid hne
    · exact .inl (startAttempt_attempts hattempt hid)
  · rcases Core.mem_setTaskStatus.mp hu with ⟨v, -, hid, rfl⟩ | ⟨hu, -⟩
    · exact .inr ⟨g, (Table.mem_insert hi).mpr (.inr rfl), hg.trans hid.symm⟩
    · exact .inl (htasks ▸ hu)

theorem exitStatus_settled (e : Event) (outcome : Outcome) :
    (exitStatus d t outcome e).2.settled = true := by
  unfold exitStatus
  split
  · split <;> rfl
  all_goals rfl

theorem exited_turn {g : Segment} {e : Event} (h : Slots d.toPlatform c) (hg : g ∈ c.segments)
    (ha : g.active = true) (ht : t ∈ c.tasks) (hid : t.id = g.taskId) :
    Turn (exitStatus d t g.outcome e).2 c (d.exited c g t e) := by
  have hstill : Still c (c.settle g.id (settledMs e.activeMs g.reservation.grantedMs)) :=
    updateSegments_still fun _ => rfl
  have hsettled := exitStatus_settled (d := d) (t := t) e g.outcome
  refine (hstill.trans (setAttemptStatus_still _)).setTaskStatus ht
    (.exit (h.busy g hg ha t ht hid) hsettled) ⟨?_, ?_⟩ <;>
  · intro hst
    rw [hst] at hsettled
    cases hsettled

theorem rejected_turn {attemptId : String} (ht : t ∈ c.tasks) (hs : t.status = .resultReady) :
    Turn .failed c (c.rejected t.id attemptId) :=
  ((Still.refl c).setTaskStatus ht (hs ▸ .reject) (by simp)).still (setAttemptStatus_still _)

theorem busy_turn {st : TaskStatus} {g : Segment} (h : Slots d.toPlatform c) (hs : Still c c')
    (hg : g ∈ c.segments) (ha : g.active = true)
    (harc : ∀ s : TaskStatus, s.busy = true → Arc s st) (hst : st ≠ .ready ∧ st ≠ .running) :
    Turn st c (c'.setTaskStatus g.taskId st) := by
  obtain ⟨t, ht, hid⟩ := h.owned g hg
  rw [← hid]
  exact hs.setTaskStatus ht (harc _ (h.busy g hg ha t ht hid)) hst

theorem sweep_turn (h : Slots d.toPlatform c) : Turn .unknown c c.markStoppingUnknown := by
  have hgs : Still c (c.updateSegments (fun g => g.status = .stopping)
      (fun g => { g with status := .unknown })) := updateSegments_still fun _ => rfl
  have hattempts : ∀ taskId, c.markStoppingUnknown.taskAttempts taskId = c.taskAttempts taskId := by
    intro taskId
    simp only [Core.markStoppingUnknown, Core.taskAttempts, Table.count_update]
    refine Table.count_congr fun a _ => ?_
    rw [Table.patch_field Attempt.taskId (by simp)]
  refine ⟨markStoppingUnknown_kept, fun u hu => ?_, fun g hg => .inl (hgs.owner_of g hg),
    fun taskId => .inl (hattempts taskId), by simp, by simp⟩
  obtain ⟨t, ht, rfl⟩ := (Table.mem_update (h := by simp)).mp hu
  unfold Table.patch
  split
  · rename_i hsel
    refine .inr ⟨rfl, fun w hw hwid => .lose ?_⟩
    obtain rfl : w = t := Table.eq_of_key hw ht hwid
    simp only [Core.taskUnknown, List.any_eq_true, Bool.and_eq_true, decide_eq_true_eq] at hsel
    obtain ⟨g, hg, hgt, hunk⟩ := hsel
    -- a segment that is unknown now was unknown or stopping before
    obtain ⟨k, hk, rfl⟩ := (Table.mem_update (h := by simp)).mp hg
    refine h.busy k hk ?_ w hw ?_
    · rw [Segment.active_iff]
      intro hexit
      rw [Table.patch_neg (by simp [hexit]), hexit] at hunk
      cases hunk
    · rw [← hgt, Table.patch_field Segment.taskId (by simp)]
  · exact .inl ht

end Moves

/-! ## The two halves of a move -/

/-- The task will never complete: it is cancelled, or failed with its last attempt. -/
def Core.Ended (c : Core) (t : Task) : Prop :=
  t.status = .cancelled ∨ (t.status = .failed ∧ c.spent t)

/-- The second half of a move, after some tasks turned to `st`. -/
inductive Close (st : TaskStatus) (c c₁ : Core) : Option String → Core → Prop
  | leave (hc : st ≠ .completed) (hx : st ≠ .cancelled)
      (hf : st = .failed → ∀ u ∈ c₁.tasks, u ∈ c.tasks ∨ ¬ c₁.spent u) : Close st c c₁ none c₁
  | release (hst : st = .completed) : Close st c c₁ none (releaseReady c₁)
  | block {t : Task} (ht : t ∈ c.tasks) (hb : t.status.complete = false)
      (hst : st = .cancelled ∨ st = .failed)
      (hend : ∀ u ∈ c₁.tasks, u.id = t.id → c₁.Ended u)
      (hrest : ∀ u ∈ c₁.tasks, u.id ≠ t.id → u ∈ c.tasks)
      (hattempts : c₁.attempts.rows.map Attempt.static = c.attempts.rows.map Attempt.static) :
      Close st c c₁ (some t.id) (blockFailedDependencies c₁)

section Split
variable {d : DB} {op : Op} {x : Option String} {c c' : Core}

/-- A rewrite of the row of `t` to `st`, over rows that are otherwise old. -/
theorem rows_of_setTaskStatus {c₀ : Core} {t : Task} {st : TaskStatus} (h : c₀.tasks = c.tasks) :
    (∀ u ∈ (c₀.setTaskStatus t.id st).tasks, u.id = t.id → u.status = st) ∧
      ∀ u ∈ (c₀.setTaskStatus t.id st).tasks, u.id ≠ t.id → u ∈ c.tasks := by
  constructor
  · intro u hu hid
    rcases Core.mem_setTaskStatus.mp hu with ⟨v, -, -, rfl⟩ | ⟨-, hne⟩
    · rfl
    · exact absurd hid hne
  · intro u hu hne
    rcases Core.mem_setTaskStatus.mp hu with ⟨v, -, hid, rfl⟩ | ⟨hu, -⟩
    · exact absurd hid hne
    · exact h ▸ hu

/-- Only a claim sets a task running, and only a retry sets one ready. -/
structure Named (op : Op) (st : TaskStatus) (c c₁ : Core) : Prop where
  running : st = .running →
    c₁.tasks = c.tasks ∨ ∃ env hostId epoch slots, op = .claimReady env hostId epoch slots
  ready : st = .ready → ∃ spec, op = .queueRetry spec

theorem named_of_settled {st : TaskStatus} {c₁ : Core} (h : st.settled = true) :
    Named op st c c₁ := by
  constructor <;> rintro rfl <;> cases h

theorem named_of_other {st : TaskStatus} {c₁ : Core} (hrun : st ≠ .running) (hready : st ≠ .ready) :
    Named op st c c₁ :=
  ⟨fun h => absurd h hrun, fun h => absurd h hready⟩

theorem Move.split (h : Slots d.toPlatform c) (hm : Move d op x c c') :
    ∃ st c₁, Turn st c c₁ ∧ Close st c c₁ x c' ∧ Named op st c c₁ := by
  cases hm with
  | claim hop _ hsel _ _ hattempt hsegment =>
    obtain ⟨ht, -, hc, -⟩ := selectReady_spec hsel
    exact ⟨_, _, claim_turn ht hc rfl hattempt hsegment, .leave (by simp) (by simp) (by simp),
      fun _ => .inr ⟨_, _, _, _, hop⟩, fun h => by cases h⟩
  | quiet hq =>
    exact ⟨.running, c', hq.still.turn _, .leave (by simp) (by simp) (by simp),
      fun _ => .inl hq.tasks, fun h => by cases h⟩
  | stopping hq hg ha =>
    exact ⟨_, _, busy_turn h hq.still hg ha (fun _ => .stop) (by simp),
      .leave (by simp) (by simp) (by simp), named_of_other (by simp) (by simp)⟩
  | unknown hq hg ha =>
    exact ⟨_, _, busy_turn h (hq.still.trans (setAttemptStatus_still _)) hg ha (fun _ => .lose)
      (by simp), .leave (by simp) (by simp) (by simp), named_of_other (by simp) (by simp)⟩
  | sweep =>
    exact ⟨_, _, sweep_turn h, .leave (by simp) (by simp) (by simp),
      named_of_other (by simp) (by simp)⟩
  | @exit _ g t e hg ha ht hid hc hf =>
    refine ⟨_, _, exited_turn h hg ha ht hid, .leave hc ?_ fun hst u hu => ?_,
      named_of_settled (exitStatus_settled e g.outcome)⟩
    · intro hx
      have := exitStatus_settled (d := d) (t := t) e g.outcome
      rw [hx] at this
      cases this
    · by_cases hut : u.id = t.id
      · refine .inr fun hsp => hf ⟨hst, ?_⟩
        exact (spent_iff (static_of_kept exited_kept ht hu hut)).mp (spent_exited.mp hsp)
      · exact .inl ((rows_of_setTaskStatus rfl).2 u hu hut)
  | complete hg ha ht hid hc =>
    exact ⟨_, _, exited_turn h hg ha ht hid, .release hc, named_of_settled (by rw [hc]; rfl)⟩
  | @exhaust _ g t e hg ha ht hid hf hx =>
    refine ⟨_, _, exited_turn h hg ha ht hid, .block ht ?_ (.inr hf) (fun u hu hut => ?_)
      (rows_of_setTaskStatus rfl).2 (setAttemptStatus_attempts _ _ _),
      named_of_settled (by rw [hf]; rfl)⟩
    · have := h.busy g hg ha t ht hid
      cases hst : t.status <;> simp_all [TaskStatus.busy, TaskStatus.complete]
    · refine .inr ⟨((rows_of_setTaskStatus rfl).1 u hu hut).trans hf, ?_⟩
      exact spent_exited.mpr ((spent_iff (static_of_kept exited_kept ht hu hut)).mpr hx)
  | @cancel _ t ht hs =>
    refine ⟨_, _, (Still.refl c).setTaskStatus ht (.cancel hs) (by simp), .block ht ?_ (.inl rfl)
      (fun u hu hut => .inl ((rows_of_setTaskStatus rfl).1 u hu hut)) (rows_of_setTaskStatus rfl).2
      rfl, named_of_other (by simp) (by simp)⟩
    cases hst : t.status <;> simp_all [TaskStatus.cancellable, TaskStatus.complete]
  | accept ht hs =>
    exact ⟨_, _, (Still.refl c).setTaskStatus ht (hs ▸ .accept) (by simp), .release rfl,
      named_of_other (by simp) (by simp)⟩
  | @reject _ t attemptId ht hs hx =>
    refine ⟨_, _, rejected_turn ht hs, .leave (by simp) (by simp) fun _ u hu => ?_,
      named_of_other (by simp) (by simp)⟩
    by_cases hut : u.id = t.id
    · refine .inr fun hsp => hx ?_
      rw [← spent_iff (static_of_kept rejected_kept ht hu hut)]
      rwa [Core.spent, Core.rejected, Core.taskAttempts_setAttemptStatus] at hsp
    · exact .inl ((rows_of_setTaskStatus rfl).2 u hu hut)
  | @rejectLast _ t attemptId ht hs hx =>
    refine ⟨_, _, rejected_turn ht hs, .block ht (by rw [hs]; rfl) (.inr rfl)
      (fun u hu hut => ?_) (rows_of_setTaskStatus rfl).2 (setAttemptStatus_attempts _ _ _),
      named_of_other (by simp) (by simp)⟩
    refine .inr ⟨(rows_of_setTaskStatus rfl).1 u hu hut, ?_⟩
    rw [Core.spent, Core.rejected, Core.taskAttempts_setAttemptStatus]
    exact (spent_iff (static_of_kept rejected_kept ht hu hut)).mpr hx
  | resume ht hs =>
    exact ⟨_, _, resume_turn ht hs, .leave (by simp) (by simp) (by simp),
      named_of_other (by simp) (by simp)⟩
  | retry ht hs _ hleft hop =>
    exact ⟨_, _, retry_turn ht hs hleft, .leave (by simp) (by simp) (by simp),
      fun h => (by cases h),
      fun _ => hop⟩

end Split
end Orchestrator.Store
