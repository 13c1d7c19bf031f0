import Orchestrator.Store.Rows
import Orchestrator.Library.Stabilize
import Mathlib.Data.List.Sort

/-!
# Releasing and blocking dependents

`releaseReady` runs when a task completes, `blockFailedDependencies` when one
can no longer complete. Both go over every task of the database.
-/
namespace Orchestrator.Store
open Library

def TaskStatus.complete : TaskStatus → Bool
  | .completed | .integrated => true
  | _ => false

/-- The statuses that block a dependent. -/
def TaskStatus.blocks : TaskStatus → Bool
  | .failed | .cancelled | .budgetExhausted | .blockedDependency => true
  | _ => false

/-- The statuses a dependent can be blocked from. -/
def TaskStatus.blockable : TaskStatus → Bool
  | .queued | .ready => true
  | _ => false

/-! ## releaseReady -/

def Core.dependencyComplete (c : Core) (dep : String) : Bool :=
  (c.tasks.find? dep).any (fun t => t.status.complete)

/-- `ORDER BY created_at, id`. -/
def byAge (t u : Task) : Prop :=
  t.createdAt < u.createdAt ∨ t.createdAt = u.createdAt ∧ t.id ≤ u.id

instance : DecidableRel byAge := fun _ _ => inferInstanceAs (Decidable (_ ∨ _))

def releaseOne (c : Core) (candidate : Task) : Core :=
  if candidate.dependencies.all c.dependencyComplete then
    let (sequence, c) := c.takeReadySequence
    c.setTask candidate.id (fun t =>
      { t with
        status := if t.status = .queued then .ready else t.status
        readySequence := some sequence })
  else c

def releaseReady (c : Core) : Core :=
  let candidates := (c.tasks.rows.filter (fun t => t.status = .queued)).insertionSort byAge
  candidates.foldl releaseOne c

def Core.releasable (c : Core) (t : Task) : Bool :=
  t.status = .queued && t.dependencies.all c.dependencyComplete

/-- `c'` is `c` with the tasks `p` selects made ready, each with a sequence of its own. -/
structure Released (c c' : Core) (p : Task → Bool) : Prop where
  limits : c'.limits = c.limits
  attempts : c'.attempts = c.attempts
  segments : c'.segments = c.segments
  next_le : c.nextReadySequence ≤ c'.nextReadySequence
  rows : ∃ sequence : Task → Int,
    c'.tasks.rows = c.tasks.rows.map (fun t => if p t then t.enqueued .ready (sequence t) else t) ∧
    (∀ t ∈ c.tasks, p t = true →
      c.nextReadySequence ≤ sequence t ∧ sequence t < c'.nextReadySequence) ∧
    ∀ t ∈ c.tasks, ∀ u ∈ c.tasks, p t = true → p u = true → sequence t = sequence u → t = u

theorem dependencyComplete_iff {c : Core} {dep : String} :
    c.dependencyComplete dep = true ↔ ∃ u ∈ c.tasks, u.id = dep ∧ u.status.complete = true := by
  simp only [Core.dependencyComplete, Option.any_eq_true]
  constructor
  · rintro ⟨u, hu, hs⟩
    exact ⟨u, (Table.find?_eq_some.mp hu).1, (Table.find?_eq_some.mp hu).2, hs⟩
  · rintro ⟨u, hu, rfl, hs⟩
    exact ⟨u, Table.find?_of_mem hu, hs⟩

section Release
variable {c : Core} {a : Task}

theorem releaseOne_skip (h : ¬ a.dependencies.all c.dependencyComplete = true) :
    releaseOne c a = c := if_neg h

theorem releaseOne_rows (ha : a ∈ c.tasks) (hq : a.status = .queued)
    (h : a.dependencies.all c.dependencyComplete = true) :
    (releaseOne c a).tasks.rows =
      c.tasks.rows.map (fun t => if t = a then a.enqueued .ready c.nextReadySequence else t) := by
  rw [releaseOne, if_pos h]
  simp only [Core.takeReadySequence, Core.setTask, Table.rows_update]
  refine List.map_congr_left fun t ht => ?_
  unfold Table.patch
  by_cases hid : t.id = a.id
  · obtain rfl : t = a := Table.eq_of_key ht ha hid
    simp [Task.enqueued, hq]
  · have hne : t ≠ a := fun h => hid (h ▸ rfl)
    simp [hid, hne]

theorem releaseOne_next (h : a.dependencies.all c.dependencyComplete = true) :
    (releaseOne c a).nextReadySequence = c.nextReadySequence + 1 := by
  rw [releaseOne, if_pos h]; rfl

theorem releaseOne_frame (c : Core) (a : Task) : (releaseOne c a).limits = c.limits ∧
    (releaseOne c a).attempts = c.attempts ∧ (releaseOne c a).segments = c.segments := by
  unfold releaseOne
  split <;> exact ⟨rfl, rfl, rfl⟩

/-- A task made ready was not complete before and is not after. -/
theorem releaseOne_dependencyComplete (ha : a ∈ c.tasks) (hq : a.status = .queued) :
    (releaseOne c a).dependencyComplete = c.dependencyComplete := by
  by_cases h : a.dependencies.all c.dependencyComplete = true
  · funext dep
    rw [Bool.eq_iff_iff, dependencyComplete_iff, dependencyComplete_iff]
    simp only [Table.mem_def, releaseOne_rows ha hq h, List.mem_map]
    constructor
    · rintro ⟨_, ⟨t, ht, rfl⟩, hid, hs⟩
      by_cases hta : t = a
      · simp [hta, TaskStatus.complete] at hs
      · rw [if_neg hta] at hid hs
        exact ⟨t, ht, hid, hs⟩
    · rintro ⟨t, ht, hid, hs⟩
      have hta : t ≠ a := by rintro rfl; rw [hq] at hs; cases hs
      exact ⟨t, ⟨t, ht, if_neg hta⟩, hid, hs⟩
  · rw [releaseOne_skip h]

/-- After `a` the rest is made ready with later sequences. -/
theorem Released.cons {c' : Core} {p : Task → Bool} (ha : a ∈ c.tasks) (hq : a.status = .queued)
    (h : a.dependencies.all c.dependencyComplete = true)
    (hp : ∀ t, p t = true → t.status = .queued) (hr : Released (releaseOne c a) c' p) :
    Released c c' (fun t => decide (t = a) || p t) := by
  obtain ⟨hl, hat, hsg, hle, seq, hr, hrange, hinj⟩ := hr
  obtain ⟨hl', hat', hsg'⟩ := releaseOne_frame c a
  rw [releaseOne_next h] at hle hrange
  have hrows := releaseOne_rows ha hq h
  have hlater : ∀ t ∈ c.tasks, t ≠ a → (decide (t = a) || p t) = true →
      t ∈ (releaseOne c a).tasks ∧ p t = true ∧ c.nextReadySequence + 1 ≤ seq t ∧
        seq t < c'.nextReadySequence := by
    intro t ht hne hpt
    have hin : t ∈ (releaseOne c a).tasks := by
      rw [Table.mem_def, hrows]
      exact List.mem_map.mpr ⟨t, ht, if_neg hne⟩
    have hpt : p t = true := by simpa [hne] using hpt
    exact ⟨hin, hpt, hrange t hin hpt⟩
  refine ⟨hl.trans hl', hat.trans hat', hsg.trans hsg', by omega,
    fun t => if t = a then c.nextReadySequence else seq t, ?_, fun t ht hpt => ?_,
    fun t ht u hu hpt hpu heq => ?_⟩
  · rw [hr, hrows, List.map_map]
    refine List.map_congr_left fun t ht => ?_
    simp only [Function.comp_apply]
    by_cases hta : t = a
    · subst hta
      have : p (t.enqueued .ready c.nextReadySequence) ≠ true := fun hpt => by
        simpa [Task.enqueued] using hp _ hpt
      simp [this]
    · simp [hta]
  · simp only
    split
    · omega
    · rename_i hta
      obtain ⟨-, -, hrange⟩ := hlater t ht hta hpt
      omega
  · simp only at heq
    split at heq <;> split at heq
    · rename_i hta hua
      rw [hta, hua]
    · rename_i hta hua
      obtain ⟨-, -, hrange⟩ := hlater u hu hua hpu
      omega
    · rename_i hta hua
      obtain ⟨-, -, hrange⟩ := hlater t ht hta hpt
      omega
    · rename_i hta hua
      obtain ⟨ht', hpt', -⟩ := hlater t ht hta hpt
      obtain ⟨hu', hpu', -⟩ := hlater u hu hua hpu
      exact hinj t ht' u hu' hpt' hpu' heq

theorem foldl_releaseOne (cs : List Task) (hn : cs.Nodup)
    (hcs : ∀ b ∈ cs, b ∈ c.tasks ∧ b.status = .queued) :
    Released c (cs.foldl releaseOne c)
      (fun t => decide (t ∈ cs) && t.dependencies.all c.dependencyComplete) := by
  induction cs generalizing c with
  | nil => exact ⟨rfl, rfl, rfl, le_refl _, fun _ => 0, by simp, by simp, by simp⟩
  | cons a cs ih =>
    obtain ⟨hacs, hn⟩ := List.nodup_cons.mp hn
    obtain ⟨ha, hq⟩ := hcs a List.mem_cons_self
    rw [List.foldl_cons]
    by_cases h : a.dependencies.all c.dependencyComplete = true
    · have hin : ∀ b ∈ cs, b ∈ (releaseOne c a).tasks ∧ b.status = .queued := by
        intro b hb
        obtain ⟨hbt, hbq⟩ := hcs b (List.mem_cons_of_mem a hb)
        have hne : b ≠ a := fun hba => hacs (hba ▸ hb)
        rw [Table.mem_def, releaseOne_rows ha hq h]
        exact ⟨List.mem_map.mpr ⟨b, hbt, if_neg hne⟩, hbq⟩
      have hrest := ih hn hin
      simp only [releaseOne_dependencyComplete ha hq] at hrest
      have hqueued : ∀ t, (decide (t ∈ cs) && t.dependencies.all c.dependencyComplete) = true →
          t.status = .queued := fun t ht => by
        rw [Bool.and_eq_true, decide_eq_true_eq] at ht
        exact (hcs t (List.mem_cons_of_mem a ht.1)).2
      convert hrest.cons ha hq h hqueued using 2
      rename_i t
      by_cases hta : t = a
      · subst hta; simp [h]
      · simp [hta]
    · rw [releaseOne_skip h]
      have := ih hn fun b hb => hcs b (List.mem_cons_of_mem a hb)
      convert this using 2
      rename_i t
      by_cases hta : t = a
      · subst hta; simp [h]
      · simp [hta]

end Release

/-- `releaseReady` makes ready exactly the queued tasks whose dependencies are complete. -/
theorem releaseReady_released (c : Core) : Released c (releaseReady c) c.releasable := by
  have hn : c.tasks.rows.Nodup := List.Nodup.of_map _ c.tasks.keyed
  have hmem : ∀ t, t ∈ (c.tasks.rows.filter (fun t => t.status = .queued)).insertionSort byAge ↔
      t ∈ c.tasks ∧ t.status = .queued := by
    intro t; simp [List.mem_insertionSort, Table.mem_def]
  have h := foldl_releaseOne
    ((c.tasks.rows.filter (fun t => t.status = .queued)).insertionSort byAge)
    ((List.perm_insertionSort byAge _).nodup_iff.mpr (hn.filter _)) (fun b => (hmem b).mp)
  have hsame : ∀ t ∈ c.tasks, (decide (t ∈ (c.tasks.rows.filter
      (fun t => t.status = .queued)).insertionSort byAge) &&
      t.dependencies.all c.dependencyComplete) = c.releasable t := by
    intro t ht
    simp only [hmem, ht, true_and, Core.releasable]
  obtain ⟨hl, ha, hs, hle, seq, hr, hrange, hinj⟩ := h
  refine ⟨hl, ha, hs, hle, seq, ?_, ?_, ?_⟩
  · rw [releaseReady, hr]
    exact List.map_congr_left fun t ht => by rw [hsame t ht]
  · intro t ht hp
    exact hrange t ht (hsame t ht ▸ hp)
  · intro t ht u hu hpt hpu
    exact hinj t ht u hu (hsame t ht ▸ hpt) (hsame u hu ▸ hpu)

/-! ## blockFailedDependencies -/

def blockedBelow (tasks : Table Task.id) (t : Task) : Bool :=
  t.status.blockable &&
    t.dependencies.any (fun dep => (tasks.find? dep).any (fun u => u.status.blocks))

/-- One step of the inner loop. Go visits the tasks in map order. -/
def blockVisit (tasks : Table Task.id) (taskId : String) : Table Task.id :=
  tasks.update (fun t => t.id = taskId && blockedBelow tasks t)
    (·.withStatus .blockedDependency)

def blockPass (tasks : Table Task.id) : Table Task.id :=
  (tasks.rows.map Task.id).foldl blockVisit tasks

def blockFailedDependencies (c : Core) : Core :=
  let tasks := stabilize blockPass c.tasks.rows.length c.tasks
  { c with
    tasks := c.tasks.update
      (fun t => t.status.blockable &&
        (tasks.find? t.id).any (fun u => u.status = .blockedDependency))
      (·.withStatus .blockedDependency) }

/-- The tasks the loop reaches: blockable ones below a task that blocks. -/
inductive Doomed (tasks : Table Task.id) : Task → Prop
  | direct {t u : Task} (ht : t ∈ tasks) (hb : t.status.blockable = true) (hu : u ∈ tasks)
      (hd : u.id ∈ t.dependencies) (hs : u.status.blocks = true) : Doomed tasks t
  | via {t u : Task} (ht : t ∈ tasks) (hb : t.status.blockable = true)
      (hd : u.id ∈ t.dependencies) (hu : Doomed tasks u) : Doomed tasks t

theorem Doomed.mem {tasks : Table Task.id} {t : Task} (h : Doomed tasks t) : t ∈ tasks := by
  cases h <;> assumption

theorem Doomed.blockable {tasks : Table Task.id} {t : Task} (h : Doomed tasks t) :
    t.status.blockable = true := by
  cases h <;> assumption

open Classical in
/-- The row `blockFailedDependencies` leaves of a task. -/
noncomputable def afterBlocking (tasks : Table Task.id) (t : Task) : Task :=
  if Doomed tasks t then t.withStatus .blockedDependency else t

theorem afterBlocking_doomed {tasks : Table Task.id} {t : Task} (h : Doomed tasks t) :
    afterBlocking tasks t = t.withStatus .blockedDependency := if_pos h

theorem afterBlocking_spared {tasks : Table Task.id} {t : Task} (h : ¬ Doomed tasks t) :
    afterBlocking tasks t = t := if_neg h

theorem afterBlocking_field {β : Type*} (g : Task → β)
    (h : ∀ t : Task, g (t.withStatus .blockedDependency) = g t)
    (tasks : Table Task.id) (t : Task) : g (afterBlocking tasks t) = g t := by
  unfold afterBlocking; split <;> simp [h]

section Visits
variable {tasks reached : Table Task.id}

/-- Some doomed tasks of `tasks` are blocked in `reached`, and nothing else changed. -/
def PartlyBlocked (tasks reached : Table Task.id) : Prop :=
  ∃ ψ : Task → Task, reached.rows = tasks.rows.map ψ ∧
    ∀ t ∈ tasks, ψ t = t ∨ Doomed tasks t ∧ ψ t = t.withStatus .blockedDependency

theorem PartlyBlocked.refl (tasks : Table Task.id) : PartlyBlocked tasks tasks :=
  ⟨id, by simp, fun t _ => .inl rfl⟩

theorem PartlyBlocked.mem (h : PartlyBlocked tasks reached) {r : Task} (hr : r ∈ reached) :
    ∃ t ∈ tasks, r = t ∨ Doomed tasks t ∧ r = t.withStatus .blockedDependency := by
  obtain ⟨ψ, hψ, hrow⟩ := h
  rw [Table.mem_def, hψ] at hr
  obtain ⟨t, ht, rfl⟩ := List.mem_map.mp hr
  exact ⟨t, ht, hrow t ht⟩

theorem PartlyBlocked.of_mem (h : PartlyBlocked tasks reached) {t : Task} (ht : t ∈ tasks) :
    t ∈ reached ∨ Doomed tasks t ∧ t.withStatus .blockedDependency ∈ reached := by
  obtain ⟨ψ, hψ, hrow⟩ := h
  have hm : ψ t ∈ reached := by rw [Table.mem_def, hψ]; exact List.mem_map_of_mem ht
  rcases hrow t ht with h | ⟨hd, h⟩
  · exact .inl (h ▸ hm)
  · exact .inr ⟨hd, h ▸ hm⟩

theorem blockedBelow_iff {ts : Table Task.id} {t : Task} : blockedBelow ts t = true ↔
    t.status.blockable = true ∧ ∃ u ∈ ts, u.id ∈ t.dependencies ∧ u.status.blocks = true := by
  simp only [blockedBelow, Bool.and_eq_true, List.any_eq_true, Option.any_eq_true]
  constructor
  · rintro ⟨hb, dep, hdep, u, hu, hs⟩
    obtain ⟨hm, rfl⟩ := Table.find?_eq_some.mp hu
    exact ⟨hb, u, hm, hdep, hs⟩
  · rintro ⟨hb, u, hm, hdep, hs⟩
    exact ⟨hb, u.id, hdep, u, Table.find?_of_mem hm, hs⟩

theorem PartlyBlocked.visit (h : PartlyBlocked tasks reached) (taskId : String) :
    PartlyBlocked tasks (blockVisit reached taskId) := by
  have hmem := @h.mem
  obtain ⟨ψ, hψ, hrow⟩ := h
  refine ⟨Table.patch (fun t => t.id = taskId && blockedBelow reached t)
    (·.withStatus .blockedDependency) ∘ ψ, by
    rw [blockVisit, Table.rows_update, hψ, List.map_map], ?_⟩
  intro t ht
  rw [Function.comp_apply]
  by_cases hsel : ((ψ t).id = taskId && blockedBelow reached (ψ t)) = true
  · rw [Table.patch_pos (p := fun t => t.id = taskId && blockedBelow reached t) hsel]
    rw [Bool.and_eq_true, blockedBelow_iff] at hsel
    obtain ⟨-, hb, u, hu, hd, hs⟩ := hsel
    -- a row that is still blockable has not been rewritten yet
    have htt : ψ t = t := by
      rcases hrow t ht with h | ⟨-, h⟩
      · exact h
      · rw [h] at hb; cases hb
    rw [htt] at hb hd ⊢
    refine .inr ⟨?_, rfl⟩
    obtain ⟨v, hv, rfl | ⟨hvd, rfl⟩⟩ := hmem hu
    · exact .direct ht hb hv hd hs
    · exact .via (u := v) ht hb hd hvd
  · rw [Table.patch_neg (p := fun t => t.id = taskId && blockedBelow reached t)
      (by simpa using hsel)]
    exact hrow t ht

theorem PartlyBlocked.visits (h : PartlyBlocked tasks reached) (ids : List String) :
    PartlyBlocked tasks (ids.foldl blockVisit reached) := by
  induction ids generalizing reached with
  | nil => exact h
  | cons id ids ih => exact ih (h.visit id)

/-- Where no visit changes anything, no blockable task is left below one that blocks. -/
theorem not_blockable_of_stable (hs : ∀ t ∈ reached, blockVisit reached t.id = reached)
    {t u : Task} (ht : t ∈ reached) (hu : u ∈ reached) (hd : u.id ∈ t.dependencies)
    (hb : u.status.blocks = true) : t.status.blockable = false := by
  by_contra hne
  rw [Bool.not_eq_false] at hne
  have hbelow : blockedBelow reached t = true := blockedBelow_iff.mpr ⟨hne, u, hu, hd, hb⟩
  have hm : Table.patch (fun s => s.id = t.id && blockedBelow reached s)
      (·.withStatus .blockedDependency) t ∈ blockVisit reached t.id :=
    Table.patch_mem_update ht
  rw [hs t ht, Table.patch_pos (by simp [hbelow])] at hm
  have heq := Table.eq_of_key hm ht rfl
  rw [← heq] at hne
  cases hne

theorem blocked_of_stable (h : PartlyBlocked tasks reached)
    (hs : ∀ t ∈ reached, blockVisit reached t.id = reached) {t : Task} (hd : Doomed tasks t) :
    t.withStatus .blockedDependency ∈ reached := by
  induction hd with
  | @direct t u ht hb hu hdep hst =>
    rcases h.of_mem ht with hr | ⟨-, hr⟩
    · have : ∃ v ∈ reached, v.id = u.id ∧ v.status.blocks = true := by
        rcases h.of_mem hu with hu | ⟨-, hu⟩
        · exact ⟨u, hu, rfl, hst⟩
        · exact ⟨_, hu, rfl, rfl⟩
      obtain ⟨v, hv, hid, hvb⟩ := this
      rw [not_blockable_of_stable hs hr hv (hid ▸ hdep) hvb] at hb
      cases hb
    · exact hr
  | @via t u ht hb hdep _ ih =>
    rcases h.of_mem ht with hr | ⟨-, hr⟩
    · rw [not_blockable_of_stable hs hr ih hdep rfl] at hb
      cases hb
    · exact hr

/-- Whatever the order of the visits, a stable state blocks exactly the doomed tasks. -/
theorem rows_of_stable (h : PartlyBlocked tasks reached)
    (hs : ∀ t ∈ reached, blockVisit reached t.id = reached) :
    reached.rows = tasks.rows.map (afterBlocking tasks) := by
  have hdone := @blocked_of_stable _ _ h hs
  obtain ⟨ψ, hψ, hrow⟩ := h
  rw [hψ]
  refine List.map_congr_left fun t ht => ?_
  by_cases hd : Doomed tasks t
  · have hm : ψ t ∈ reached := by rw [Table.mem_def, hψ]; exact List.mem_map_of_mem ht
    rw [afterBlocking_doomed hd]
    refine Table.eq_of_key hm (hdone hd) ?_
    rcases hrow t ht with h | ⟨-, h⟩ <;> simp [h]
  · rw [afterBlocking_spared hd]
    exact (hrow t ht).resolve_right fun h => hd h.1

end Visits

/-! The loop stops by itself: a visit that changes a row leaves one blockable row less. -/

def blockableCount (tasks : Table Task.id) : Nat := tasks.count (fun t => t.status.blockable)

theorem blockVisit_shrinks (taskId : String) : Shrinks blockableCount (blockVisit · taskId) := by
  intro ts
  by_cases hsel : ∀ t ∈ ts, (t.id = taskId && blockedBelow ts t) = false
  · exact .inl (Table.update_eq_self hsel)
  · right
    push Not at hsel
    obtain ⟨t, ht, hp⟩ := hsel
    rw [Bool.ne_false_iff] at hp
    simp only [blockableCount, blockVisit, Table.count_update]
    refine Table.count_lt ht ?_ ?_ ?_
    · intro u _ hu
      unfold Table.patch at hu
      split at hu
      · cases hu
      · exact hu
    · rw [Bool.and_eq_true, blockedBelow_iff] at hp
      exact hp.2.1
    · rw [Table.patch_pos (p := fun t => t.id = taskId && blockedBelow ts t) hp]; rfl

theorem blockPass_shrinks : Shrinks blockableCount blockPass :=
  fun ts => foldl_shrinks blockVisit_shrinks (ts.rows.map Task.id) ts

theorem stabilize_blockPass_rows (tasks : Table Task.id) :
    (stabilize blockPass tasks.rows.length tasks).rows = tasks.rows.map (afterBlocking tasks) := by
  apply rows_of_stable
  · exact stabilize_invariant _ (PartlyBlocked.refl tasks) fun ts h => h.visits _
  · have hfix := stabilize_fixed blockPass_shrinks (s := tasks) (n := tasks.rows.length)
      (List.countP_le_length)
    intro t ht
    exact foldl_fixed blockVisit_shrinks hfix t.id (List.mem_map_of_mem ht)

/-- `blockFailedDependencies` blocks exactly the doomed tasks. -/
theorem blockFailedDependencies_rows (c : Core) :
    (blockFailedDependencies c).tasks.rows = c.tasks.rows.map (afterBlocking c.tasks) := by
  have hrows := stabilize_blockPass_rows c.tasks
  simp only [blockFailedDependencies, Table.rows_update]
  refine List.map_congr_left fun t ht => ?_
  have hm : afterBlocking c.tasks t ∈ stabilize blockPass c.tasks.rows.length c.tasks := by
    rw [Table.mem_def, hrows]; exact List.mem_map_of_mem ht
  have hid : (afterBlocking c.tasks t).id = t.id := afterBlocking_field Task.id (fun _ => rfl) _ _
  have hfind := Table.find?_of_mem hm
  rw [hid] at hfind
  by_cases hd : Doomed c.tasks t
  · rw [afterBlocking_doomed hd] at hfind ⊢
    exact Table.patch_pos (by simp [hfind, hd.blockable])
  · rw [afterBlocking_spared hd] at hfind ⊢
    refine Table.patch_neg ?_
    rw [hfind]
    cases hs : t.status <;> simp [hs, TaskStatus.blockable]

/-- The map order Go visits in does not matter: visits in any order that end
where no visit changes anything leave the same rows. -/
theorem blockFailedDependencies_any_order (c : Core) (ids : List String)
    (hs : ∀ t ∈ ids.foldl blockVisit c.tasks,
      blockVisit (ids.foldl blockVisit c.tasks) t.id = ids.foldl blockVisit c.tasks) :
    (blockFailedDependencies c).tasks = ids.foldl blockVisit c.tasks := by
  apply Table.ext
  rw [blockFailedDependencies_rows, rows_of_stable ((PartlyBlocked.refl c.tasks).visits ids) hs]

theorem mem_blockFailedDependencies {c : Core} {t : Task} :
    t ∈ (blockFailedDependencies c).tasks ↔ ∃ u ∈ c.tasks, afterBlocking c.tasks u = t := by
  rw [Table.mem_def, blockFailedDependencies_rows]; exact List.mem_map

end Orchestrator.Store
