import Orchestrator.Invariants.Slots
import Mathlib.Data.List.Pairwise

/-!
# The ready order

Ready sequences are drawn from one counter, so no two tasks share one, and every
task that can be claimed has one. `selectReady` therefore has a unique first
choice.
-/
namespace Orchestrator.Store
open Library

structure Order (c : Core) : Prop where
  sequenced : ∀ t ∈ c.tasks, t.status.claimable = true → ∃ n, t.readySequence = some n
  below : ∀ t ∈ c.tasks, ∀ n, t.readySequence = some n → n < c.nextReadySequence
  distinct : ∀ t ∈ c.tasks, ∀ u ∈ c.tasks, ∀ n,
    t.readySequence = some n → u.readySequence = some n → t = u

section Updates
variable {c c' : Core}

/-- A rewrite that leaves sequences alone and makes nothing claimable. -/
theorem Order.mapTasks (h : Order c) (hn : c.nextReadySequence ≤ c'.nextReadySequence)
    (ψ : Task → Task) (hr : c'.tasks.rows = c.tasks.rows.map ψ)
    (hseq : ∀ t ∈ c.tasks, (ψ t).readySequence = t.readySequence)
    (hcl : ∀ t ∈ c.tasks, (ψ t).status.claimable = true → t.status.claimable = true) :
    Order c' := by
  have hmem : ∀ u ∈ c'.tasks, ∃ t ∈ c.tasks, ψ t = u := fun u hu => by
    rw [Table.mem_def, hr] at hu; exact List.mem_map.mp hu
  refine ⟨fun u hu hc => ?_, fun u hu n hun => ?_, fun u hu v hv n hun hvn => ?_⟩
  · obtain ⟨t, ht, rfl⟩ := hmem u hu
    rw [hseq t ht]
    exact h.sequenced t ht (hcl t ht hc)
  · obtain ⟨t, ht, rfl⟩ := hmem u hu
    rw [hseq t ht] at hun
    exact (h.below t ht n hun).trans_le hn
  · obtain ⟨t, ht, rfl⟩ := hmem u hu
    obtain ⟨w, hw, rfl⟩ := hmem v hv
    rw [hseq t ht] at hun
    rw [hseq w hw] at hvn
    rw [h.distinct t ht w hw n hun hvn]

theorem Order.setTask (h : Order c) {taskId : String} {f : Task → Task} {hf : ∀ t, (f t).id = t.id}
    (hseq : ∀ t, (f t).readySequence = t.readySequence)
    (hcl : ∀ t, (f t).status.claimable = true → t.status.claimable = true) :
    Order (c.setTask taskId f hf) := by
  refine h.mapTasks (le_refl _) _ rfl (fun t _ => Table.patch_field Task.readySequence hseq t)
    fun t _ => ?_
  unfold Table.patch
  split
  · exact hcl t
  · exact id

theorem Order.setTaskStatus (h : Order c) {taskId : String} {st : TaskStatus}
    (hst : st.claimable = false) : Order (c.setTaskStatus taskId st) :=
  h.setTask (fun _ => rfl) fun t hc => by
    rw [Task.withStatus_status, hst] at hc; cases hc

theorem Order.of_tasks (h : Order c) (hn : c'.nextReadySequence = c.nextReadySequence)
    (ht : c'.tasks = c.tasks) : Order c' :=
  h.mapTasks hn.ge id (by simp [ht]) (fun _ _ => rfl) fun _ _ => id

/-- The counter moves past the sequence an enqueued task takes. -/
theorem Order.enqueue (h : Order c) {taskId : String} {st : TaskStatus} :
    Order (c.enqueue taskId st) := by
  have hcase : ∀ u ∈ (c.enqueue taskId st).tasks,
      (u.id = taskId ∧ u.readySequence = some c.nextReadySequence) ∨
        (u ∈ c.tasks ∧ u.id ≠ taskId) :=
    fun u hu => by
      rcases Core.mem_enqueue.mp hu with ⟨t, -, hid, rfl⟩ | hu
      · exact .inl ⟨hid, rfl⟩
      · exact .inr hu
  refine ⟨fun u hu hc => ?_, fun u hu n hun => ?_, fun u hu v hv n hun hvn => ?_⟩
  · rcases hcase u hu with ⟨-, hs⟩ | ⟨hu, -⟩
    · exact ⟨_, hs⟩
    · exact h.sequenced u hu hc
  · rw [Core.enqueue_next]
    rcases hcase u hu with ⟨-, hs⟩ | ⟨hu, -⟩
    · rw [hs, Option.some.injEq] at hun; omega
    · have := h.below u hu n hun; omega
  · rcases hcase u hu with ⟨huid, hs⟩ | ⟨hut, -⟩
    · rcases hcase v hv with ⟨hvid, -⟩ | ⟨hvt, -⟩
      · exact Table.eq_of_key hu hv (huid.trans hvid.symm)
      · rw [hs, Option.some.injEq] at hun
        have := h.below v hvt n hvn; omega
    · rcases hcase v hv with ⟨-, hs⟩ | ⟨hvt, -⟩
      · rw [hs, Option.some.injEq] at hvn
        have := h.below u hut n hun; omega
      · exact h.distinct u hut v hvt n hun hvn

theorem Order.released {q : Task → Bool} (h : Order c) (hr : Released c c' q) : Order c' := by
  obtain ⟨seq, hrows, hrange, hinj⟩ := hr.rows
  have hle := hr.next_le
  have hmem : ∀ u ∈ c'.tasks, ∃ t ∈ c.tasks,
      (if q t then t.enqueued .ready (seq t) else t) = u := fun u hu => by
    rw [Table.mem_def, hrows] at hu; exact List.mem_map.mp hu
  -- a released task has a new sequence, any other the one it had
  have hcase : ∀ t ∈ c.tasks, ∀ n,
      (if q t then t.enqueued .ready (seq t) else t).readySequence = some n →
        (q t = true ∧ n = seq t) ∨ (q t = false ∧ t.readySequence = some n) := by
    intro t _ n hn
    split at hn
    · rename_i hq
      rw [Task.enqueued_readySequence, Option.some.injEq] at hn
      exact .inl ⟨hq, hn.symm⟩
    · rename_i hq
      exact .inr ⟨by simpa using hq, hn⟩
  refine ⟨fun u hu hc => ?_, fun u hu n hun => ?_, fun u hu v hv n hun hvn => ?_⟩
  · obtain ⟨t, ht, rfl⟩ := hmem u hu
    split at hc
    · rename_i hq; rw [if_pos hq]; exact ⟨_, rfl⟩
    · rename_i hq; rw [if_neg hq]; exact h.sequenced t ht hc
  · obtain ⟨t, ht, rfl⟩ := hmem u hu
    rcases hcase t ht n hun with ⟨hq, rfl⟩ | ⟨-, hn⟩
    · exact (hrange t ht hq).2
    · exact (h.below t ht n hn).trans_le hle
  · obtain ⟨t, ht, rfl⟩ := hmem u hu
    obtain ⟨w, hw, rfl⟩ := hmem v hv
    have htw : t = w := by
      rcases hcase t ht n hun with ⟨hq, rfl⟩ | ⟨-, hn⟩
      · rcases hcase w hw _ hvn with ⟨hq', heq⟩ | ⟨-, hn'⟩
        · exact hinj t ht w hw hq hq' heq
        · have := h.below w hw _ hn'
          have := (hrange t ht hq).1
          omega
      · rcases hcase w hw n hvn with ⟨hq', rfl⟩ | ⟨-, hn'⟩
        · have := h.below t ht _ hn
          have := (hrange w hw hq').1
          omega
        · exact h.distinct t ht w hw n hn hn'
    rw [htw]

theorem Order.releaseReady (h : Order c) : Order (releaseReady c) :=
  h.released (releaseReady_released c)

theorem Order.block (h : Order c) : Order (blockFailedDependencies c) := by
  refine h.mapTasks (le_refl _) _ (blockFailedDependencies_rows c)
    (fun t _ => afterBlocking_field Task.readySequence (fun _ => rfl) _ t) fun t _ hc => ?_
  by_cases hd : Doomed c.tasks t
  · rw [afterBlocking_doomed hd] at hc; cases hc
  · rwa [afterBlocking_spared hd] at hc

theorem Order.exited {d : DB} {g : Segment} {t : Task} {e : Event} (h : Order c) :
    Order (d.exited c g t e) := by
  have h₁ : Order ((c.settle g.id (settledMs e.activeMs g.reservation.grantedMs)).setAttemptStatus
      g.attemptId (exitStatus d t g.outcome e).1) := h.of_tasks rfl rfl
  refine h₁.setTaskStatus ?_
  unfold exitStatus
  split
  · split <;> rfl
  all_goals rfl

theorem Order.rejected {taskId attemptId : String} (h : Order c) :
    Order (c.rejected taskId attemptId) := by
  have h₁ : Order (c.setTaskStatus taskId .failed) := h.setTaskStatus rfl
  exact h₁.of_tasks rfl rfl

theorem Order.move {d : DB} {op : Op} {x : Option String} (h : Order c) (hm : Move d op x c c') :
    Order c' := by
  cases hm with
  | claim _ _ _ _ _ hattempt hsegment =>
    obtain ⟨-, hn, ht, -⟩ := startAttempt_frame hattempt
    obtain ⟨segments, -, rfl⟩ := startSegment_cases hsegment
    refine Order.setTaskStatus ?_ rfl
    exact h.of_tasks hn ht
  | quiet hq => exact h.of_tasks hq.next hq.tasks
  | stopping hq => exact (h.of_tasks hq.next hq.tasks).setTaskStatus rfl
  | unknown hq =>
    refine Order.setTaskStatus ?_ rfl
    exact h.of_tasks hq.next hq.tasks
  | sweep =>
    refine h.mapTasks (le_refl _) _ rfl
      (fun t _ => Table.patch_field Task.readySequence (by simp) t) fun t _ => ?_
    unfold Table.patch
    split
    · rintro hc; cases hc
    · exact id
  | exit => exact h.exited
  | complete => exact h.exited.releaseReady
  | exhaust => exact h.exited.block
  | @cancel _ t =>
    refine Order.block (c := c.setTaskStatus t.id .cancelled) ?_
    exact h.setTaskStatus rfl
  | @accept _ t =>
    refine Order.releaseReady (c := c.setTaskStatus t.id .completed) ?_
    exact h.setTaskStatus rfl
  | reject => exact h.rejected
  | rejectLast => exact h.rejected.block
  | resume => exact h.enqueue
  | @retry _ _ payload =>
    cases payload with
    | none => exact h.enqueue
    | some payload =>
      exact (h.setTask (f := fun t => { t with
        adapterPayload := payload, fallbackIndex := t.fallbackIndex + 1 }) (fun _ => rfl)
        fun _ => id).enqueue

theorem Order.submitted {d : DB} (h : Order c) (hs : Submitted d c c') : Order c' := by
  obtain ⟨p, launchId, stamp, -, -, hi⟩ := hs.inserted
  obtain ⟨new, hr, hrow, hpair⟩ := hi.rows
  have hle := hi.next_le
  have hmem : ∀ t, t ∈ c'.tasks ↔ t ∈ c.tasks ∨ t ∈ new := fun t => by
    rw [Table.mem_def, hr, List.mem_append]; rfl
  have hrange : ∀ t ∈ new, ∀ n, t.readySequence = some n →
      c.nextReadySequence ≤ n ∧ n < c'.nextReadySequence := by
    intro t ht n hn
    obtain ⟨spec, -, hrow⟩ := forall₂_right hrow ht
    exact hrow.range hn
  refine ⟨fun t ht hc => ?_, fun t ht n hn => ?_, fun t ht u hu n htn hun => ?_⟩
  · rcases (hmem t).mp ht with ht | ht
    · exact h.sequenced t ht hc
    · obtain ⟨spec, -, ⟨-, n, -, -, rfl⟩ | ⟨hd, rfl⟩⟩ := forall₂_right hrow ht
      · exact ⟨n, rfl⟩
      · simp [DB.taskRow, hd, TaskStatus.claimable] at hc
  · rcases (hmem t).mp ht with ht | ht
    · exact (h.below t ht n hn).trans_le hle
    · exact (hrange t ht n hn).2
  · rcases (hmem t).mp ht with ht' | ht' <;> rcases (hmem u).mp hu with hu' | hu'
    · exact h.distinct t ht' u hu' n htn hun
    · have := h.below t ht' n htn
      have := (hrange u hu' n hun).1
      omega
    · have := h.below u hu' n hun
      have := (hrange t ht' n htn).1
      omega
    · have : Std.Symm (fun t u : Task =>
          ∀ n, t.readySequence = some n → u.readySequence ≠ some n) :=
        ⟨fun t u hd n hu ht => hd n ht hu⟩
      by_contra hne
      exact hpair.forall ht' hu' hne n htn hun

theorem Order.step {d : DB} {op : Op} {x : Option String} (h : Order c) (hs : Step d op x c c') :
    Order c' := by
  cases hs with
  | submit hs => exact h.submitted hs
  | move hm => exact h.move hm

end Updates

theorem order_fresh (limits : ConcurrencyLimits) : Order (Core.fresh limits) :=
  ⟨fun _ h => absurd h (Table.not_mem_empty _), fun _ h => absurd h (Table.not_mem_empty _),
    fun _ h => absurd h (Table.not_mem_empty _)⟩

theorem order_of_reachable {d : DB} {limits : ConcurrencyLimits} {s : State}
    (h : d.Reachable limits s) : Order s.toCore :=
  core_invariant (order_fresh limits) (fun _ _ _ _ hi hs => hi.step hs) h

/-! ## The first choice -/

/-- A task `selectReady` may choose. -/
structure Core.Waiting (c : Core) (p : Platform) (launchId : String) (t : Task) : Prop where
  mem : t ∈ c.tasks
  launch : t.hostLaunchId = launchId
  claimable : t.status.claimable = true
  capacity : c.hasCapacity p t = true

/-- `t` comes first among the tasks `P` allows. -/
def First (P : Task → Prop) (t : Task) : Prop := P t ∧ ∀ u, P u → byReadySequence t u

instance : Std.Total byReadySequence where
  total t u := by
    unfold byReadySequence
    cases t.readySequence <;> cases u.readySequence <;> simp [nullsFirst]
    exact le_total _ _

instance : IsTrans Task byReadySequence where
  trans t u v := by
    unfold byReadySequence
    cases t.readySequence <;> cases u.readySequence <;> cases v.readySequence <;>
      simp [nullsFirst]
    exact le_trans

theorem mem_candidates {c : Core} {launchId : String} {t : Task} : t ∈ c.candidates launchId ↔
    t ∈ c.tasks ∧ t.hostLaunchId = launchId ∧ t.status.claimable = true := by
  simp [Core.candidates, List.mem_insertionSort, List.mem_filter, Table.mem_def]

theorem selectReady_first {p : Platform} {c : Core} {launchId : String} {t : Task}
    (h : selectReady p c launchId = some t) : First (c.Waiting p launchId) t := by
  obtain ⟨hcap, before, after, happ, hbefore⟩ := List.find?_eq_some_iff_append.mp h
  have hmem : t ∈ c.candidates launchId := List.mem_of_find?_eq_some h
  obtain ⟨ht, hl, hc⟩ := mem_candidates.mp hmem
  refine ⟨⟨ht, hl, hc, hcap⟩, fun u hu => ?_⟩
  have hum : u ∈ before ++ t :: after := happ ▸ mem_candidates.mpr ⟨hu.mem, hu.launch, hu.claimable⟩
  have hsorted : (before ++ t :: after).Pairwise byReadySequence :=
    happ ▸ List.pairwise_insertionSort byReadySequence _
  rcases List.mem_append.mp hum with hub | hua
  · have := hbefore u hub
    rw [hu.capacity] at this
    cases this
  · rcases List.mem_cons.mp hua with rfl | hua
    · exact (total_of byReadySequence u u).elim id id
    · exact List.rel_of_pairwise_cons (List.pairwise_append.mp hsorted).2.1 hua

theorem selectReady_isSome {p : Platform} {c : Core} {launchId : String} {t : Task}
    (h : c.Waiting p launchId t) : ∃ u, selectReady p c launchId = some u := by
  cases hs : selectReady p c launchId with
  | some u => exact ⟨u, rfl⟩
  | none =>
    have := List.find?_eq_none.mp hs t (mem_candidates.mpr ⟨h.mem, h.launch, h.claimable⟩)
    exact absurd h.capacity this

/-- The first choice is unique. -/
theorem Order.first_unique {p : Platform} {c : Core} {launchId : String} (h : Order c) {t u : Task}
    (ht : First (c.Waiting p launchId) t) (hu : First (c.Waiting p launchId) u) : t = u := by
  obtain ⟨m, hm⟩ := h.sequenced t ht.1.mem ht.1.claimable
  obtain ⟨n, hn⟩ := h.sequenced u hu.1.mem hu.1.claimable
  have h1 := ht.2 u hu.1
  have h2 := hu.2 t ht.1
  rw [byReadySequence, hm, hn] at h1 h2
  obtain rfl : m = n := le_antisymm h1 h2
  exact h.distinct t ht.1.mem u hu.1.mem m hm hn

end Orchestrator.Store
