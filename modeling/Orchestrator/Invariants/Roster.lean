import Orchestrator.Invariants.Writes

/-!
# Tasks and segments outlive every operation

What `Step` says of a bound state holds of the rows of any state: an operation
adds tasks and segments, and changes of those there are only what `static`
leaves out.
-/
namespace Orchestrator.Store
open Library

/-- The same tasks and the same segments, but for what may change of them. -/
structure Roster (c c' : Core) : Prop where
  tasks : c'.tasks.rows.map Task.static = c.tasks.rows.map Task.static
  segments : c'.segments.rows.map Segment.static = c.segments.rows.map Segment.static

namespace Roster
variable {c c' c'' : Core} {id : String}

theorem refl (c : Core) : Roster c c := ⟨rfl, rfl⟩

theorem trans (h : Roster c c') (h' : Roster c' c'') : Roster c c'' :=
  ⟨h'.tasks.trans h.tasks, h'.segments.trans h.segments⟩

theorem of_kept (h : Kept c c') (hg : c'.segments = c.segments) : Roster c c' :=
  ⟨h.sameTasks, by rw [hg]⟩

theorem setTaskStatus (st : TaskStatus) : Roster c (c.setTaskStatus id st) :=
  .of_kept (setTaskStatus_kept st) rfl

theorem setAttemptStatus (st : AttemptStatus) : Roster c (c.setAttemptStatus id st) :=
  .of_kept (setAttemptStatus_kept st) rfl

theorem updateSegments {p : Segment → Bool} {f : Segment → Segment} {hf : ∀ g, (f g).id = g.id}
    (h : ∀ g, (f g).static = g.static) : Roster c (c.updateSegments p f hf) :=
  ⟨rfl, map_static_update (h := hf) Segment.static h⟩

theorem enqueue (st : TaskStatus) : Roster c (c.enqueue id st) :=
  .of_kept (enqueue_kept st) rfl

theorem setAdapter (payload : Option String) : Roster c (c.setAdapter id payload) := by
  refine .of_kept (setAdapter_kept payload) ?_
  cases payload <;> rfl

theorem releaseReady : Roster c (releaseReady c) :=
  .of_kept releaseReady_kept (releaseReady_released c).segments

theorem blockFailedDependencies : Roster c (blockFailedDependencies c) :=
  .of_kept blockFailedDependencies_kept rfl

theorem markStoppingUnknown : Roster c c.markStoppingUnknown := by
  refine ⟨markStoppingUnknown_kept.sameTasks, ?_⟩
  exact map_static_update (h := by simp) Segment.static fun _ => rfl

theorem blockIfExhausted (h : c.blockIfExhausted id = .ok c') : Roster c c' := by
  simp only [Core.blockIfExhausted, bind_ok_iff, expect_ok, require_ok, exists_const,
    Except.ok.injEq] at h
  obtain ⟨t, -, -, rfl⟩ := h
  split
  · exact blockFailedDependencies
  · exact refl c

theorem afterExit {status : TaskStatus} (h : c.afterExit id status = .ok c') : Roster c c' := by
  unfold Core.afterExit at h
  split at h
  · cases h; exact releaseReady
  · exact blockIfExhausted h
  · cases h; exact refl c

theorem cancel : Roster c (c.cancel id) := (setTaskStatus _).trans blockFailedDependencies

theorem accept : Roster c (c.accept id) := (setTaskStatus _).trans releaseReady

theorem reject {attemptId : String} (h : c.reject id attemptId = .ok c') : Roster c c' :=
  ((setTaskStatus _).trans (setAttemptStatus _)).trans (blockIfExhausted h)

theorem stopSegment {taskId : String} : Roster c (c.stopSegment id taskId) := by
  unfold Core.stopSegment
  refine Roster.trans ?_ (setTaskStatus _)
  exact updateSegments fun _ => rfl

end Roster

section Events
variable {d : DB} {env : Env} {s s' : State} {e : Event} {kind : ReportKind}

theorem applyQuestion_roster (h : applyQuestion s e = .ok s') : Roster s.toCore s'.toCore := by
  obtain rfl | ⟨g, questions, -, -, -, -, rfl⟩ := applyQuestion_cases h
  · exact .refl _
  · exact .updateSegments fun _ => rfl

theorem ensureQuestionStop_roster (h : ensureQuestionStop env s e = .ok s') :
    Roster s.toCore s'.toCore := by
  obtain rfl | ⟨g, stops, -, -, -, rfl⟩ := ensureQuestionStop_cases h
  · exact .refl _
  · refine Roster.trans ?_ (.setTaskStatus _)
    exact .updateSegments fun _ => rfl

theorem askReported_roster (h : askReported env s kind e = .ok s') :
    Roster s.toCore s'.toCore := by
  unfold askReported at h
  split at h
  · obtain ⟨s₁, h₁, h₂⟩ := bind_ok_iff.mp h
    exact (applyQuestion_roster h₁).trans (ensureQuestionStop_roster h₂)
  · cases h
    exact .refl _

theorem materialize_roster {segmentId sessionKind sessionId : String}
    (h : materializePendingReportQuestion env s segmentId sessionKind sessionId = .ok s') :
    Roster s.toCore s'.toCore := by
  obtain ⟨-, rfl⟩ | ⟨r, c, order, s₁, -, -, -, -, h₁, h₂⟩ := materialize_cases h
  · exact .refl _
  · exact (applyQuestion_roster h₁).trans (ensureQuestionStop_roster h₂)

theorem applySession_roster (h : applySession env s e = .ok s') :
    Roster s.toCore s'.toCore := by
  obtain rfl | ⟨row, sessions, -, -, h⟩ := applySession_cases h
  · exact .refl _
  · exact materialize_roster (s := { s with sessions := sessions }) h

theorem applyExit_roster (h : d.applyExit s e = .ok s') : Roster s.toCore s'.toCore := by
  obtain ⟨g, -, ⟨-, rfl⟩ | ⟨-, t, core, -, hcore, rfl⟩⟩ := applyExit_cases h
  · exact .refl _
  · have hsettle : Roster s.toCore (s.toCore.settle e.segmentId
        (settledMs e.activeMs g.reservation.grantedMs)) := .updateSegments fun _ => rfl
    exact ((hsettle.trans (.setAttemptStatus _)).trans (.setTaskStatus _)).trans (.afterExit hcore)

theorem applyEvent_roster (h : d.applyEvent env s e = .ok s') : Roster s.toCore s'.toCore := by
  unfold DB.applyEvent at h
  split at h
  case h_4 => exact applySession_roster h
  case h_5 => exact applyQuestion_roster h
  case h_9 =>
    cases h
    simp only [Core.applyUnknown]
    split
    · refine Roster.trans (Roster.trans ?_ (.setAttemptStatus _)) (.setTaskStatus _)
      exact .updateSegments fun _ => rfl
    · exact .refl _
  case h_10 => exact applyExit_roster h
  case h_11 => cases h
  all_goals
    cases h
    exact .updateSegments fun _ => rfl

end Events

section Operations
variable {d : DB} {s s' : State} {op : Op}

/-- What an operation adds to the tasks and segments, every other row the same. -/
theorem Writes.roster (h : Writes d s op s') : Roster s.toCore s'.toCore ∨
    (s.tasks.rows.map Task.static <+: s'.tasks.rows.map Task.static ∧
      s'.segments = s.segments) ∨
    (s'.tasks.rows.map Task.static = s.tasks.rows.map Task.static ∧ ∃ g, ∃ t ∈ s.tasks,
      t.id = g.taskId ∧ s'.segments.rows = s.segments.rows ++ [g]) := by
  cases h with
  | same => exact .inl (.refl _)
  | plan _ _ hcore =>
    have hi := insertTasks_inserted hcore
    obtain ⟨new, hrows, -⟩ := hi.rows
    refine .inr (.inl ⟨?_, hi.segments⟩)
    rw [hrows, List.map_append]
    exact List.prefix_append _ _
  | fleet => exact .inl (.refl _)
  | @claim env hostId epoch _ t place _ _ h =>
    obtain ⟨host, -, -, -, hsel⟩ := h.host
    obtain ⟨ht, -, -, -⟩ := selectReady_spec hsel
    obtain ⟨c₁, c₂, caps, h₁, h₂, -, rfl, -⟩ := launch_cases h.launched
    have hk : Kept s.toCore (c₂.setTaskStatus t.id .running) :=
      ((startAttempt_kept h₁).trans (startSegment_kept h₂)).trans (setTaskStatus_kept .running)
    obtain ⟨segments, hi, rfl⟩ := startSegment_cases h₂
    have hrows := Table.rows_insert hi
    rw [(startAttempt_frame h₁).2.2.2] at hrows
    exact .inr (.inr ⟨hk.sameTasks, d.claimedSegment env hostId epoch t place (s.toCore.grant t), t,
      ht, rfl, hrows⟩)
  | pending => exact .inl (.updateSegments fun _ => rfl)
  | resume => exact .inl (.enqueue _)
  | answer => exact .inl (.enqueue _)
  | review _ _ _ hcore =>
    obtain rfl | ⟨attemptId, hcore⟩ := hcore
    · exact .inl .accept
    · exact .inl (.reject hcore)
  | retry => exact .inl ((Roster.setAdapter _).trans (.enqueue _))
  | ack => exact .inl (.refl _)
  | cancel => exact .inl .cancel
  | stop => exact .inl .stopSegment
  | sweep => exact .inl .markStoppingUnknown
  | register => exact .inl (.refl _)
  | report _ _ _ _ _ h₁ h₂ =>
    obtain ⟨row, events, order, usage, -, -, -, rfl⟩ := appendReport_frame h₁
    have hr := askReported_roster h₂
    exact .inl hr
  | event _ _ _ _ _ h₁ h₂ =>
    obtain ⟨events, order, usage, rfl⟩ := appendEvent_frame h₁
    have hr := applyEvent_roster h₂
    exact .inl hr

theorem Writes.tasks (h : Writes d s op s') :
    s.tasks.rows.map Task.static <+: s'.tasks.rows.map Task.static := by
  obtain h | ⟨h, -⟩ | ⟨h, -⟩ := h.roster
  · exact h.tasks ▸ List.prefix_rfl
  · exact h
  · exact h ▸ List.prefix_rfl

/-- A segment was there before, or belongs to a task that was. -/
theorem Writes.segment_of (h : Writes d s op s') {g' : Segment} (hg : g' ∈ s'.segments) :
    (∃ g ∈ s.segments, g'.static = g.static) ∨ ∃ t ∈ s.tasks, t.id = g'.taskId := by
  obtain h | ⟨-, h⟩ | ⟨-, g, t, ht, hid, hrows⟩ := h.roster
  · obtain ⟨g, hm, -, hst⟩ := mem_of_map_eq h.segments hg
    exact .inl ⟨g, hm, hst⟩
  · exact .inl ⟨g', h ▸ hg, rfl⟩
  · rw [Table.mem_def, hrows, List.mem_append, List.mem_singleton] at hg
    rcases hg with hg | rfl
    · exact .inl ⟨g', hg, rfl⟩
    · exact .inr ⟨t, ht, hid⟩

end Operations
end Orchestrator.Store
