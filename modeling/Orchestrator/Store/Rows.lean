import Orchestrator.Store.Database
import Mathlib.Data.Prod.Lex

/-!
# Queries and updates of the scheduling rows

The `SELECT`s several operations share, and the `UPDATE`s they are built from.
-/
namespace Orchestrator.Store
open Library

def Reservation.charge (r : Reservation) : Int :=
  if r.status = .settled then r.usedMs else r.grantedMs

namespace Core
variable (c : Core)

/-! ## Queries -/

def activeCount : Nat := c.segments.count Segment.active

def taskActive (taskId : String) : Nat :=
  c.segments.count (fun g => g.taskId = taskId && g.active)

def taskAttempts (taskId : String) : Nat := c.attempts.count (fun a => a.taskId = taskId)

def inGroup (group taskId : String) : Bool :=
  (c.tasks.find? taskId).any (fun t => t.budgetGroupId = group)

def groupAttempts (group : String) : Nat :=
  c.attempts.count (fun a => c.inGroup group a.taskId)

def charged (group : String) : Int :=
  c.segments.sum (fun g => if g.reservation.budgetGroupId = group then g.reservation.charge else 0)

/-- `ORDER BY attempt_no DESC, segment_no DESC LIMIT 1`. -/
def latestSegment (taskId : String) : Option Segment :=
  (c.segments.rows.filter (fun g => g.taskId = taskId)).argmax
    (fun g => toLex (g.attemptNo, g.segmentNo))

def latestAttempt (taskId : String) : Option Attempt :=
  (c.attempts.rows.filter (fun a => a.taskId = taskId)).argmax Attempt.attemptNo

/-! ## Updates -/

def setTask (taskId : String) (f : Task → Task) (h : ∀ t, (f t).id = t.id := by intro _; simp) :
    Core :=
  { c with tasks := c.tasks.update (fun t => t.id = taskId) f h }

def setTaskStatus (taskId : String) (status : TaskStatus) : Core :=
  c.setTask taskId (·.withStatus status)

def setAttemptStatus (attemptId : String) (status : AttemptStatus) : Core :=
  { c with
    attempts := c.attempts.update (fun a => a.id = attemptId)
      (fun a => { a with status := status }) }

def updateSegments (p : Segment → Bool) (f : Segment → Segment)
    (h : ∀ g, (f g).id = g.id := by intro _; simp) : Core :=
  { c with segments := c.segments.update p f h }

def takeReadySequence : Int × Core :=
  (c.nextReadySequence, { c with nextReadySequence := c.nextReadySequence + 1 })

/-- Take a ready sequence and give it to the task with its new status. -/
def enqueue (taskId : String) (status : TaskStatus) : Core :=
  let (sequence, c) := c.takeReadySequence
  c.setTask taskId (·.enqueued status sequence)

section
variable {c : Core} {id : String} {st : TaskStatus} {ast : AttemptStatus}
  {f : Task → Task} {hf : ∀ t, (f t).id = t.id}
  {p : Segment → Bool} {g : Segment → Segment} {hg : ∀ s, (g s).id = s.id}

@[simp] theorem setTask_limits : (c.setTask id f hf).limits = c.limits := rfl
@[simp] theorem setTask_next : (c.setTask id f hf).nextReadySequence = c.nextReadySequence := rfl
@[simp] theorem setTask_attempts : (c.setTask id f hf).attempts = c.attempts := rfl
@[simp] theorem setTask_segments : (c.setTask id f hf).segments = c.segments := rfl

@[simp] theorem setTaskStatus_limits : (c.setTaskStatus id st).limits = c.limits := rfl
@[simp] theorem setTaskStatus_next :
    (c.setTaskStatus id st).nextReadySequence = c.nextReadySequence := rfl
@[simp] theorem setTaskStatus_attempts : (c.setTaskStatus id st).attempts = c.attempts := rfl
@[simp] theorem setTaskStatus_segments : (c.setTaskStatus id st).segments = c.segments := rfl

@[simp] theorem setAttemptStatus_limits : (c.setAttemptStatus id ast).limits = c.limits := rfl
@[simp] theorem setAttemptStatus_next :
    (c.setAttemptStatus id ast).nextReadySequence = c.nextReadySequence := rfl
@[simp] theorem setAttemptStatus_tasks : (c.setAttemptStatus id ast).tasks = c.tasks := rfl
@[simp] theorem setAttemptStatus_segments : (c.setAttemptStatus id ast).segments = c.segments := rfl

@[simp] theorem updateSegments_limits : (c.updateSegments p g hg).limits = c.limits := rfl
@[simp] theorem updateSegments_next :
    (c.updateSegments p g hg).nextReadySequence = c.nextReadySequence := rfl
@[simp] theorem updateSegments_tasks : (c.updateSegments p g hg).tasks = c.tasks := rfl
@[simp] theorem updateSegments_attempts : (c.updateSegments p g hg).attempts = c.attempts := rfl

@[simp] theorem enqueue_limits : (c.enqueue id st).limits = c.limits := rfl
@[simp] theorem enqueue_next : (c.enqueue id st).nextReadySequence = c.nextReadySequence + 1 := rfl
@[simp] theorem enqueue_attempts : (c.enqueue id st).attempts = c.attempts := rfl
@[simp] theorem enqueue_segments : (c.enqueue id st).segments = c.segments := rfl

/-- The rows an update of one task leaves: its own rewritten, the others as they were. -/
theorem mem_setTask {u : Task} : u ∈ (c.setTask id f hf).tasks ↔
    (∃ t ∈ c.tasks, t.id = id ∧ f t = u) ∨ (u ∈ c.tasks ∧ u.id ≠ id) := by
  simp only [setTask, Table.mem_update, Table.patch, decide_eq_true_eq]
  constructor
  · rintro ⟨t, ht, rfl⟩
    split
    · rename_i hid; exact .inl ⟨t, ht, hid, rfl⟩
    · rename_i hid; exact .inr ⟨ht, hid⟩
  · rintro (⟨t, ht, hid, rfl⟩ | ⟨hu, hid⟩)
    · exact ⟨t, ht, if_pos hid⟩
    · exact ⟨u, hu, if_neg hid⟩

theorem mem_setTaskStatus {u : Task} : u ∈ (c.setTaskStatus id st).tasks ↔
    (∃ t ∈ c.tasks, t.id = id ∧ t.withStatus st = u) ∨ (u ∈ c.tasks ∧ u.id ≠ id) := mem_setTask

theorem mem_enqueue {u : Task} : u ∈ (c.enqueue id st).tasks ↔
    (∃ t ∈ c.tasks, t.id = id ∧ t.enqueued st c.nextReadySequence = u) ∨
      (u ∈ c.tasks ∧ u.id ≠ id) := mem_setTask

@[simp] theorem taskAttempts_setAttemptStatus (taskId : String) :
    (c.setAttemptStatus id ast).taskAttempts taskId = c.taskAttempts taskId := by
  rw [taskAttempts, setAttemptStatus, Table.count_update]
  refine Table.count_congr fun a _ => ?_
  rw [Table.patch_field Attempt.taskId (f := fun a => { a with status := ast }) fun _ => rfl]

theorem setTaskStatus_tasks : (c.setTaskStatus id st).tasks =
    c.tasks.update (fun t => t.id = id) (·.withStatus st) := rfl

theorem enqueue_tasks : (c.enqueue id st).tasks =
    c.tasks.update (fun t => t.id = id) (·.enqueued st c.nextReadySequence) := rfl

end
end Core
end Orchestrator.Store
