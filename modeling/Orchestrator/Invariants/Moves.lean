import Orchestrator.Store.Operations

/-!
# What a step can do to the scheduling rows

`Move` lists every way an operation changes the tasks, attempts and segments
that exist, with the guards the operation has checked; `Step` adds the admission
of a plan. Each invariant of the scheduling rows is proved of `Step`, and
`exec_effect` says that every accepted operation is one.

Identity never changes: `Grows` says what rows keep for good.
-/
namespace Orchestrator.Store
open Library

/-! ## The part of a row no statement writes -/

def Task.static (t : Task) : Task :=
  { t with status := .queued, readySequence := none, adapterPayload := "", fallbackIndex := 0 }

def Attempt.static (a : Attempt) : Attempt := { a with status := .running }

def Segment.static (g : Segment) : Segment :=
  { g with
    phase := .launchRequested
    status := .launchRequested
    outcome := .none
    executionEpoch := 0
    reservation := { g.reservation with usedMs := 0, status := .reserved } }

section
variable {t u : Task} (h : t.static = u.static)
include h

theorem Task.static_id : t.id = u.id := (congrArg Task.id h :)
theorem Task.static_runId : t.runId = u.runId := (congrArg Task.runId h :)
theorem Task.static_dependencies : t.dependencies = u.dependencies :=
  (congrArg Task.dependencies h :)
theorem Task.static_maxAttempts : t.maxAttempts = u.maxAttempts := (congrArg Task.maxAttempts h :)
theorem Task.static_hostLaunchId : t.hostLaunchId = u.hostLaunchId :=
  (congrArg Task.hostLaunchId h :)
theorem Task.static_budgetGroupId : t.budgetGroupId = u.budgetGroupId :=
  (congrArg Task.budgetGroupId h :)
theorem Task.static_maxActiveMs : t.maxActiveMs = u.maxActiveMs := (congrArg Task.maxActiveMs h :)

end

section
variable {g k : Segment} (h : g.static = k.static)
include h

theorem Segment.static_id : g.id = k.id := (congrArg Segment.id h :)
theorem Segment.static_attemptId : g.attemptId = k.attemptId := (congrArg Segment.attemptId h :)
theorem Segment.static_taskId : g.taskId = k.taskId := (congrArg Segment.taskId h :)
theorem Segment.static_hostId : g.hostId = k.hostId := (congrArg Segment.hostId h :)
theorem Segment.static_group : g.reservation.budgetGroupId = k.reservation.budgetGroupId :=
  (congrArg (fun g : Segment => g.reservation.budgetGroupId) h :)
theorem Segment.static_grantedMs : g.reservation.grantedMs = k.reservation.grantedMs :=
  (congrArg (fun g : Segment => g.reservation.grantedMs) h :)

end

structure Grows (c c' : Core) : Prop where
  limits : c'.limits = c.limits
  tasks : c.tasks.rows.map Task.static <+: c'.tasks.rows.map Task.static
  attempts : c.attempts.rows.map Attempt.static <+: c'.attempts.rows.map Attempt.static
  segments : c.segments.rows.map Segment.static <+: c'.segments.rows.map Segment.static

/-- Growth that admits no task. -/
structure Kept (c c' : Core) : Prop extends Grows c c' where
  sameTasks : c'.tasks.rows.map Task.static = c.tasks.rows.map Task.static

theorem mem_of_map_prefix {α β : Type*} {π : α → β} {l l' : List α}
    (h : l.map π <+: l'.map π) {a : α} (ha : a ∈ l) : ∃ b ∈ l', π b = π a :=
  List.mem_map.mp (h.subset (List.mem_map_of_mem ha))

namespace Grows
variable {c c' c'' : Core}

theorem refl (c : Core) : Grows c c :=
  ⟨rfl, List.prefix_rfl, List.prefix_rfl, List.prefix_rfl⟩

theorem trans (h : Grows c c') (h' : Grows c' c'') : Grows c c'' :=
  ⟨h'.limits.trans h.limits, h.tasks.trans h'.tasks, h.attempts.trans h'.attempts,
    h.segments.trans h'.segments⟩

theorem task (h : Grows c c') {t : Task} (ht : t ∈ c.tasks) :
    ∃ t' ∈ c'.tasks, t'.static = t.static := mem_of_map_prefix h.tasks ht

theorem attempt (h : Grows c c') {a : Attempt} (ha : a ∈ c.attempts) :
    ∃ a' ∈ c'.attempts, a'.static = a.static := mem_of_map_prefix h.attempts ha

theorem segment (h : Grows c c') {g : Segment} (hg : g ∈ c.segments) :
    ∃ g' ∈ c'.segments, g'.static = g.static := mem_of_map_prefix h.segments hg

end Grows

namespace Kept
variable {c c' c'' : Core}

theorem of_eq (hl : c'.limits = c.limits)
    (ht : c'.tasks.rows.map Task.static = c.tasks.rows.map Task.static)
    (ha : c.attempts.rows.map Attempt.static <+: c'.attempts.rows.map Attempt.static)
    (hg : c.segments.rows.map Segment.static <+: c'.segments.rows.map Segment.static) :
    Kept c c' :=
  ⟨⟨hl, ht ▸ List.prefix_rfl, ha, hg⟩, ht⟩

theorem refl (c : Core) : Kept c c := ⟨.refl c, rfl⟩

theorem trans (h : Kept c c') (h' : Kept c' c'') : Kept c c'' :=
  ⟨h.toGrows.trans h'.toGrows, h'.sameTasks.trans h.sameTasks⟩

theorem task_of (h : Kept c c') {t' : Task} (ht : t' ∈ c'.tasks) :
    ∃ t ∈ c.tasks, t.static = t'.static := by
  have hm : t'.static ∈ c'.tasks.rows.map Task.static := List.mem_map_of_mem ht
  rw [h.sameTasks] at hm
  exact List.mem_map.mp hm

end Kept

/-! ## Growth of the updates -/

theorem map_static_update {α κ β : Type*} {key : α → κ} {t : Table key} {p : α → Bool} {f : α → α}
    {h : ∀ a, key (f a) = key a} (π : α → β) (hπ : ∀ a, π (f a) = π a) :
    (t.update p f h).rows.map π = t.rows.map π := by
  rw [Table.rows_update, List.map_map]
  exact List.map_congr_left fun a _ => Table.patch_field π hπ a

section Updates
variable {c : Core} {id : String}

theorem setTask_kept {f : Task → Task} {hf : ∀ t, (f t).id = t.id}
    (h : ∀ t, (f t).static = t.static) : Kept c (c.setTask id f hf) := by
  have := map_static_update (t := c.tasks) (p := fun t => t.id = id) (h := hf) Task.static h
  exact .of_eq rfl this List.prefix_rfl List.prefix_rfl

theorem setTaskStatus_kept (st : TaskStatus) : Kept c (c.setTaskStatus id st) :=
  setTask_kept fun _ => rfl

theorem setAttemptStatus_kept (st : AttemptStatus) : Kept c (c.setAttemptStatus id st) := by
  have := map_static_update (t := c.attempts) (p := fun a => a.id = id)
    (f := fun a => { a with status := st }) (h := fun _ => rfl) Attempt.static fun _ => rfl
  exact .of_eq rfl rfl (this ▸ List.prefix_rfl) List.prefix_rfl

theorem setAttemptStatus_attempts (c : Core) (id : String) (st : AttemptStatus) :
    (c.setAttemptStatus id st).attempts.rows.map Attempt.static =
      c.attempts.rows.map Attempt.static :=
  map_static_update (h := by simp) Attempt.static fun _ => rfl

theorem updateSegments_kept {p : Segment → Bool} {f : Segment → Segment}
    {hf : ∀ g, (f g).id = g.id} (h : ∀ g, (f g).static = g.static) :
    Kept c (c.updateSegments p f hf) := by
  have := map_static_update (t := c.segments) (p := p) (h := hf) Segment.static h
  exact .of_eq rfl rfl List.prefix_rfl (this ▸ List.prefix_rfl)

theorem enqueue_kept (st : TaskStatus) : Kept c (c.enqueue id st) := by
  refine .of_eq rfl ?_ List.prefix_rfl List.prefix_rfl
  rw [Core.enqueue_tasks]
  exact map_static_update Task.static fun _ => rfl

theorem setAdapter_kept (payload : Option String) : Kept c (c.setAdapter id payload) := by
  cases payload with
  | none => exact .refl c
  | some payload => exact setTask_kept fun _ => rfl

theorem Released.kept {c' : Core} {p : Task → Bool} (h : Released c c' p) : Kept c c' := by
  obtain ⟨hl, ha, hg, -, seq, hr, -⟩ := h
  have hs : c'.tasks.rows.map Task.static = c.tasks.rows.map Task.static := by
    rw [hr, List.map_map]
    refine List.map_congr_left fun t _ => ?_
    simp only [Function.comp_apply]
    split <;> rfl
  exact .of_eq hl hs (ha ▸ List.prefix_rfl) (hg ▸ List.prefix_rfl)

theorem releaseReady_kept : Kept c (releaseReady c) := (releaseReady_released c).kept

theorem blockFailedDependencies_kept : Kept c (blockFailedDependencies c) := by
  have hs : (blockFailedDependencies c).tasks.rows.map Task.static =
      c.tasks.rows.map Task.static := by
    rw [blockFailedDependencies_rows, List.map_map]
    exact List.map_congr_left fun t _ => afterBlocking_field Task.static (fun _ => rfl) c.tasks t
  exact .of_eq rfl hs List.prefix_rfl List.prefix_rfl

theorem settle_kept (used : Int) : Kept c (c.settle id used) := updateSegments_kept fun _ => rfl

theorem markStoppingUnknown_kept : Kept c c.markStoppingUnknown := by
  have hg : Kept c (c.updateSegments (fun g => g.status = .stopping)
      (fun g => { g with status := .unknown })) := updateSegments_kept fun _ => rfl
  refine hg.trans ?_
  simp only [Core.markStoppingUnknown]
  generalize c.updateSegments (fun g => g.status = .stopping)
    (fun g => { g with status := .unknown }) _ = c
  have ht := map_static_update (t := c.tasks) (p := fun t => c.taskUnknown t.id)
    (f := (·.withStatus .unknown)) (h := fun _ => rfl) Task.static fun _ => rfl
  have ha := map_static_update (t := c.attempts) (p := fun a => c.attemptUnknown a.id)
    (f := fun a => { a with status := .unknown }) (h := fun _ => rfl) Attempt.static fun _ => rfl
  exact .of_eq rfl ht (ha ▸ List.prefix_rfl) List.prefix_rfl

theorem startAttempt_kept {c' : Core} {t : Task} {place : Placement}
    (h : c.startAttempt t place = .ok c') : Kept c c' := by
  unfold Core.startAttempt at h
  split at h
  · cases h; exact setAttemptStatus_kept _
  · simp only [bind_ok_iff, require_ok, expect_ok, exists_const, Except.ok.injEq] at h
    obtain ⟨-, attempts, hi, rfl⟩ := h
    refine .of_eq rfl rfl ?_ List.prefix_rfl
    simp only [Table.rows_insert hi, List.map_append, List.prefix_append]

theorem startSegment_kept {c' : Core} {g : Segment} (h : c.startSegment g = .ok c') :
    Kept c c' := by
  simp only [Core.startSegment, bind_ok_iff, require_ok, expect_ok, exists_const,
    Except.ok.injEq] at h
  obtain ⟨-, segments, hi, rfl⟩ := h
  refine .of_eq rfl rfl List.prefix_rfl ?_
  simp only [Table.rows_insert hi, List.map_append, List.prefix_append]

end Updates

/-! ## Counting attempts -/

section Attempts
variable {c c' : Core}

theorem inGroup_grows (h : Grows c c') {group taskId : String}
    (hg : c.inGroup group taskId = true) : c'.inGroup group taskId = true := by
  simp only [Core.inGroup, Option.any_eq_true, decide_eq_true_eq] at hg ⊢
  obtain ⟨t, ht, rfl⟩ := hg
  obtain ⟨hm, rfl⟩ := Table.find?_eq_some.mp ht
  obtain ⟨t', ht', hst⟩ := h.task hm
  exact ⟨t', Table.find?_eq_some.mpr ⟨ht', Task.static_id hst⟩, Task.static_budgetGroupId hst⟩

theorem inGroup_kept (h : Kept c c') : c'.inGroup = c.inGroup := by
  funext group taskId
  rw [Bool.eq_iff_iff]
  refine ⟨fun hg => ?_, inGroup_grows h.toGrows⟩
  simp only [Core.inGroup, Option.any_eq_true, decide_eq_true_eq] at hg ⊢
  obtain ⟨t', ht', rfl⟩ := hg
  obtain ⟨hm, rfl⟩ := Table.find?_eq_some.mp ht'
  obtain ⟨t, ht, hst⟩ := h.task_of hm
  exact ⟨t, Table.find?_eq_some.mpr ⟨ht, Task.static_id hst⟩, Task.static_budgetGroupId hst⟩

/-- Attempts are counted by their task, which `static` keeps. -/
theorem count_taskId (c : Core) (q : String → Bool) : c.attempts.count (fun a => q a.taskId) =
    (c.attempts.rows.map Attempt.static).countP (fun a => q a.taskId) := by
  rw [List.countP_map]; rfl

theorem groupAttempts_grows (h : Grows c c') (group : String) :
    c.groupAttempts group ≤ c'.groupAttempts group := by
  calc c.groupAttempts group
      ≤ c.attempts.count (fun a => c'.inGroup group a.taskId) :=
        Table.count_mono fun _ _ hg => inGroup_grows h hg
    _ ≤ c'.groupAttempts group := by
        rw [Core.groupAttempts, count_taskId, count_taskId]
        exact List.Sublist.countP_le h.attempts.sublist

theorem groupAttempts_eq (h : Kept c c')
    (ha : c'.attempts.rows.map Attempt.static = c.attempts.rows.map Attempt.static)
    (group : String) : c'.groupAttempts group = c.groupAttempts group := by
  rw [Core.groupAttempts, inGroup_kept h, Core.groupAttempts, count_taskId, count_taskId, ha]

end Attempts

/-! ## Moves -/

/-- A rewrite of segments that neither frees a slot nor takes one. -/
structure Quiet (c c' : Core) : Prop where
  limits : c'.limits = c.limits
  next : c'.nextReadySequence = c.nextReadySequence
  tasks : c'.tasks = c.tasks
  attempts : c'.attempts = c.attempts
  segments : ∃ φ : Segment → Segment, c'.segments.rows = c.segments.rows.map φ ∧
    ∀ g ∈ c.segments, (φ g).static = g.static ∧ (φ g).reservation = g.reservation ∧
      (φ g).active = g.active

namespace Quiet
variable {c c' c'' : Core}

theorem refl (c : Core) : Quiet c c :=
  ⟨rfl, rfl, rfl, rfl, id, by simp, fun _ _ => ⟨rfl, rfl, rfl⟩⟩

theorem trans (h : Quiet c c') (h' : Quiet c' c'') : Quiet c c'' := by
  obtain ⟨φ, hr, hφ⟩ := h.segments
  obtain ⟨ψ, hr', hψ⟩ := h'.segments
  refine ⟨h'.limits.trans h.limits, h'.next.trans h.next, h'.tasks.trans h.tasks,
    h'.attempts.trans h.attempts, ψ ∘ φ, by rw [hr', hr, List.map_map], fun g hg => ?_⟩
  obtain ⟨h1, h2, h3⟩ := hφ g hg
  have hm : φ g ∈ c'.segments := by rw [Table.mem_def, hr]; exact List.mem_map_of_mem hg
  obtain ⟨k1, k2, k3⟩ := hψ (φ g) hm
  exact ⟨k1.trans h1, k2.trans h2, k3.trans h3⟩

theorem kept (h : Quiet c c') : Kept c c' := by
  obtain ⟨φ, hr, hφ⟩ := h.segments
  have hs : c'.segments.rows.map Segment.static = c.segments.rows.map Segment.static := by
    rw [hr, List.map_map]
    exact List.map_congr_left fun g hg => (hφ g hg).1
  exact .of_eq h.limits (by rw [h.tasks]) (h.attempts ▸ List.prefix_rfl) (hs ▸ List.prefix_rfl)

/-- A segment of the rewritten table comes from one that agrees on all that counts. -/
theorem of_mem (h : Quiet c c') {g' : Segment} (hg : g' ∈ c'.segments) : ∃ g ∈ c.segments,
    g'.static = g.static ∧ g'.reservation = g.reservation ∧ g'.active = g.active := by
  obtain ⟨φ, hr, hφ⟩ := h.segments
  rw [Table.mem_def, hr] at hg
  obtain ⟨g, hm, rfl⟩ := List.mem_map.mp hg
  exact ⟨g, hm, hφ g hm⟩

theorem updateSegments {p : Segment → Bool} {f : Segment → Segment} {hf : ∀ g, (f g).id = g.id}
    (h : ∀ g ∈ c.segments, p g = true → (f g).static = g.static ∧
      (f g).reservation = g.reservation ∧ (f g).active = g.active) :
    Quiet c (c.updateSegments p f hf) := by
  refine ⟨rfl, rfl, rfl, rfl, Table.patch p f, rfl, fun g hg => ?_⟩
  by_cases hp : p g = true
  · rw [Table.patch_pos hp]; exact h g hg hp
  · rw [Table.patch_neg (by simpa using hp)]; exact ⟨rfl, rfl, rfl⟩

end Quiet

/-- The rows of an exit, before dependents are released or blocked. -/
def DB.exited (d : DB) (c : Core) (g : Segment) (t : Task) (e : Event) : Core :=
  ((c.settle g.id (settledMs e.activeMs g.reservation.grantedMs)).setAttemptStatus g.attemptId
    (exitStatus d t g.outcome e).1).setTaskStatus t.id (exitStatus d t g.outcome e).2

/-- The rows of a rejected result, before dependents are blocked. -/
def Core.rejected (c : Core) (taskId attemptId : String) : Core :=
  (c.setTaskStatus taskId .failed).setAttemptStatus attemptId .failed

/-- An event about the segment `g`: its task and its attempt. -/
def Names (e : Event) (g : Segment) : Prop :=
  e.segmentId = g.id ∧ e.taskId = g.taskId ∧ e.attemptId = g.attemptId

/-- The operation commits `e`, the exit of `g`. -/
def Exits (op : Op) (e : Event) (g : Segment) : Prop :=
  op.event = some e ∧ e.kind = .exited ∧ Names e g

/-- The moves of an operation. The index is the task a move ends for good: it will
never complete, and its dependents are blocked. -/
inductive Move (d : DB) (op : Op) : Option String → Core → Core → Prop
  | claim {c c₁ c₂ : Core} {env : Env} {hostId launchId : String} {epoch : Nat} {slots : Int}
      {t : Task} {place : Placement} (hop : op = .claimReady env hostId epoch slots)
      (hslots : (c.activeCount : Int) < slotBound c.limits slots)
      (hsel : selectReady d.toPlatform c launchId = some t)
      (hplace : c.place env t = .ok place)
      (hgrant : 0 < c.grant t)
      (hattempt : c.startAttempt t place = .ok c₁)
      (hsegment : c₁.startSegment
        (d.claimedSegment env hostId epoch t place (c.grant t)) = .ok c₂) :
      Move d op none c (c₂.setTaskStatus t.id .running)
  | quiet {c c' : Core} (hq : Quiet c c') : Move d op none c c'
  | stopping {c c₁ : Core} {g : Segment} (hq : Quiet c c₁) (hg : g ∈ c.segments)
      (ha : g.active = true) : Move d op none c (c₁.setTaskStatus g.taskId .stopping)
  | unknown {c c₁ : Core} {g : Segment} (hq : Quiet c c₁) (hg : g ∈ c.segments)
      (ha : g.active = true) :
      Move d op none c ((c₁.setAttemptStatus g.attemptId .unknown).setTaskStatus g.taskId .unknown)
  | sweep (c : Core) : Move d op none c c.markStoppingUnknown
  | exit {c : Core} {g : Segment} {t : Task} {e : Event} (hg : g ∈ c.segments)
      (ha : g.active = true) (ht : t ∈ c.tasks) (hid : t.id = g.taskId)
      (hc : (exitStatus d t g.outcome e).2 ≠ .completed)
      (hf : ¬ ((exitStatus d t g.outcome e).2 = .failed ∧ c.spent t)) (he : Exits op e g) :
      Move d op none c (d.exited c g t e)
  | complete {c : Core} {g : Segment} {t : Task} {e : Event} (hg : g ∈ c.segments)
      (ha : g.active = true) (ht : t ∈ c.tasks) (hid : t.id = g.taskId)
      (hc : (exitStatus d t g.outcome e).2 = .completed) (he : Exits op e g) :
      Move d op none c (releaseReady (d.exited c g t e))
  | exhaust {c : Core} {g : Segment} {t : Task} {e : Event} (hg : g ∈ c.segments)
      (ha : g.active = true) (ht : t ∈ c.tasks) (hid : t.id = g.taskId)
      (hf : (exitStatus d t g.outcome e).2 = .failed) (hx : c.spent t) (he : Exits op e g) :
      Move d op (some t.id) c (blockFailedDependencies (d.exited c g t e))
  | cancel {c : Core} {t : Task} (ht : t ∈ c.tasks) (hs : t.status.cancellable = true) :
      Move d op (some t.id) c (c.cancel t.id)
  | accept {c : Core} {t : Task} (ht : t ∈ c.tasks) (hs : t.status = .resultReady) :
      Move d op none c (c.accept t.id)
  | reject {c : Core} {t : Task} {attemptId : String} (ht : t ∈ c.tasks)
      (hs : t.status = .resultReady) (hx : ¬ c.spent t) :
      Move d op none c (c.rejected t.id attemptId)
  | rejectLast {c : Core} {t : Task} {attemptId : String} (ht : t ∈ c.tasks)
      (hs : t.status = .resultReady) (hx : c.spent t) :
      Move d op (some t.id) c (blockFailedDependencies (c.rejected t.id attemptId))
  | resume {c : Core} {t : Task} (ht : t ∈ c.tasks)
      (hs : t.status = .interrupted ∨ t.status = .waitingQuestion) (hidle : c.taskActive t.id = 0) :
      Move d op none c (c.enqueue t.id .resumeQueued)
  | retry {c : Core} {t : Task} {payload : Option String} (ht : t ∈ c.tasks)
      (hs : t.status = .failed) (hidle : c.taskActive t.id = 0)
      (hleft : ¬ c.attemptsExhausted t.budgetGroupId t.maxAttempts)
      (hop : ∃ spec, op = .queueRetry spec) :
      Move d op none c ((c.setAdapter t.id payload).enqueue t.id .ready)

/-- The scheduling rows of a plan, admitted under a launch of its own. -/
structure Submitted (d : DB) (c c' : Core) : Prop where
  intro ::
  admitted : ∃ (p : PlanSpec) (launchId stamp : String),
    d.validatePlan p = .ok () ∧ (∀ t ∈ c.tasks, t.hostLaunchId ≠ launchId) ∧
      p.tasks.foldlM (d.insertTask launchId stamp) c = .ok c'

inductive Step (d : DB) (op : Op) (x : Option String) (c c' : Core) : Prop
  | submit (h : Submitted d c c') (hx : x = none) (hop : ∃ env p, op = .submitPlan env p)
  | move (h : Move d op x c c')

/-- The task an exit ends: its segment failed, and with it its last attempt. -/
def Core.exitEnds (c : Core) (e : Event) : Option String :=
  if (∃ g ∈ c.segments.rows, g.id = e.segmentId ∧ g.active = true ∧ g.outcome = .failed) ∧
      ∃ t ∈ c.tasks.rows, t.id = e.taskId ∧ c.spent t then
    some e.taskId
  else none

/-- The task an operation ends for good when it is accepted. -/
def State.ended (s : State) : Op → Option String
  | .commitHostEvent _ e =>
    if e.kind = .exited ∧
        ∀ r ∈ s.runtimeEvents.rows, ¬ (r.producerId = e.producerId ∧ r.sequence = e.sequence) then
      s.exitEnds e
    else none
  | .reviewResult spec =>
    if s.reviewDecisions.Unused ReviewDecision.actionSlot spec.actionSlot ∧
        spec.decision ≠ "accept" ∧ ∃ t ∈ s.tasks.rows, t.id = spec.taskId ∧ s.spent t then
      some spec.taskId
    else none
  | .requestStop _ taskId _ _ =>
    if ∃ t ∈ s.tasks.rows, t.id = taskId ∧ t.status.cancellable = true then some taskId else none
  | _ => none

theorem Move.idle (d : DB) (op : Op) (c : Core) : Move d op none c c := .quiet (.refl c)

theorem exited_kept {d : DB} {c : Core} {g : Segment} {t : Task} {e : Event} :
    Kept c (d.exited c g t e) :=
  ((settle_kept _).trans (setAttemptStatus_kept _)).trans (setTaskStatus_kept _)

theorem rejected_kept {c : Core} {taskId attemptId : String} :
    Kept c (c.rejected taskId attemptId) :=
  (setTaskStatus_kept _).trans (setAttemptStatus_kept _)

theorem Move.kept {d : DB} {op : Op} {x : Option String} {c c' : Core} (h : Move d op x c c') :
    Kept c c' := by
  cases h with
  | claim _ _ _ _ _ hattempt hsegment =>
    exact ((startAttempt_kept hattempt).trans (startSegment_kept hsegment)).trans
      (setTaskStatus_kept _)
  | quiet hq => exact hq.kept
  | stopping hq => exact hq.kept.trans (setTaskStatus_kept _)
  | unknown hq => exact (hq.kept.trans (setAttemptStatus_kept _)).trans (setTaskStatus_kept _)
  | sweep => exact markStoppingUnknown_kept
  | exit => exact exited_kept
  | complete => exact exited_kept.trans releaseReady_kept
  | exhaust => exact exited_kept.trans blockFailedDependencies_kept
  | cancel => exact (setTaskStatus_kept _).trans blockFailedDependencies_kept
  | accept => exact (setTaskStatus_kept _).trans releaseReady_kept
  | reject => exact rejected_kept
  | rejectLast => exact rejected_kept.trans blockFailedDependencies_kept
  | resume => exact enqueue_kept _
  | retry => exact (setAdapter_kept _).trans (enqueue_kept _)

end Orchestrator.Store
