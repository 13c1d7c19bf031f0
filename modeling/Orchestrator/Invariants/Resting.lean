import Orchestrator.Invariants.Statuses
import Orchestrator.Invariants.Admitted

/-!
# Statuses a task rests in

A set of statuses that leads out of itself by a claim alone keeps a task until
it is claimed. Two are used: an answered task that nobody has claimed since, and
a task that was queued for a retry.
-/
namespace Orchestrator.Store
open Library

/-- The statuses that only a claim leaves. -/
structure Resting (P : TaskStatus → Bool) : Prop where
  arcs : ∀ s s', P s = true → Arc s s' → P s' = true ∨ s' = .running
  queued : P .queued = true → P .ready = true
  blocked : ∀ s, P s = true → s.blockable = true → P .blockedDependency = true

/-- The task was answered and not claimed since. -/
def TaskStatus.parked : TaskStatus → Bool
  | .resumeQueued | .cancelled => true
  | _ => false

/-- The task was queued for a retry and not claimed since. -/
def TaskStatus.requeued : TaskStatus → Bool
  | .ready | .blockedDependency | .cancelled => true
  | _ => false

/-- No attempt of the task was started since it was admitted or retried. -/
def TaskStatus.unlaunched : TaskStatus → Bool
  | .queued | .ready => true
  | _ => false

/-- A claim finds a parked task with its answer queued. -/
theorem TaskStatus.resumeQueued_of_parked {s : TaskStatus} (h : s.parked = true)
    (hc : s.claimable = true) : s = .resumeQueued := by
  cases s <;> simp_all [parked, claimable]

theorem parked_resting : Resting TaskStatus.parked := by
  refine ⟨fun s s' hp harc => ?_, nofun, fun s hp hb => ?_⟩
  · cases harc with
    | claim => exact .inr rfl
    | cancel => exact .inl rfl
    | resume h => rcases h with rfl | rfl <;> cases hp
    | accept | reject | retry => cases hp
    | stop h | lose h | exit h => cases s <;> first | cases hp; done | cases h
  · cases s <;> first | cases hp; done | cases hb

theorem requeued_resting : Resting TaskStatus.requeued := by
  refine ⟨fun s s' hp harc => ?_, nofun, fun _ _ _ => rfl⟩
  cases harc with
  | claim => exact .inr rfl
  | cancel => exact .inl rfl
  | resume h => rcases h with rfl | rfl <;> cases hp
  | accept | reject | retry => cases hp
  | stop h | lose h | exit h => cases s <;> first | cases hp; done | cases h

section Rests
variable {d : DB} {op : Op} {x : Option String} {c c' c₁ : Core} {st : TaskStatus} {t : Task}
  {P : TaskStatus → Bool}

/-- Neither release nor blocking takes a task out of a set it rests in. -/
theorem Close.rests (hP : Resting P) (h : Close st c c₁ x c') (ht : t ∈ c₁.tasks)
    (hp : P t.status = true) : ∃ t' ∈ c'.tasks, t'.id = t.id ∧ P t'.status = true := by
  cases h with
  | leave => exact ⟨t, ht, rfl, hp⟩
  | release =>
    obtain ⟨sequence, hrows, -⟩ := (releaseReady_released c₁).rows
    refine ⟨_, Table.mem_def.mpr (hrows ▸ List.mem_map_of_mem ht), ?_, ?_⟩
    · split <;> rfl
    · split
      · rename_i hq
        exact hP.queued (releasable_queued hq ▸ hp)
      · exact hp
  | block =>
    refine ⟨_, mem_blockFailedDependencies.mpr ⟨t, ht, rfl⟩, ?_, ?_⟩
    · exact afterBlocking_field Task.id (fun _ => rfl) _ _
    · by_cases hd : Doomed c₁.tasks t
      · rw [afterBlocking_doomed hd]
        exact hP.blocked _ hp hd.blockable
      · rwa [afterBlocking_spared hd]

theorem Step.rests (hP : Resting P) (hs : Slots d.toPlatform c) (h : Step d op x c c')
    (ht : t ∈ c.tasks) (hp : P t.status = true) :
    (∃ t' ∈ c'.tasks, t'.id = t.id ∧ P t'.status = true) ∨
      ∃ env hostId epoch slots, op = .claimReady env hostId epoch slots := by
  cases h with
  | submit hsub =>
    obtain ⟨p, launchId, stamp, -, -, hi⟩ := hsub.inserted
    obtain ⟨new, hr, -⟩ := hi.rows
    exact .inl ⟨t, Table.mem_def.mpr (hr ▸ List.mem_append_left new ht), rfl, hp⟩
  | move hm =>
    obtain ⟨st, c₁, hturn, hclose, hnamed⟩ := hm.split hs
    obtain ⟨u, hu, hst, rfl | ⟨hus, harc⟩⟩ := hturn.task ht
    · exact .inl (hclose.rests hP hu hp)
    · obtain hkeep | hrun := hP.arcs _ _ hp harc
      · obtain ⟨t', ht', hid, hp'⟩ := hclose.rests hP hu (hus ▸ hkeep)
        exact .inl ⟨t', ht', hid.trans (Task.static_id hst), hp'⟩
      · obtain hsame | hop := hnamed.running hrun
        · -- no task was turned after all
          obtain rfl : u = t := Table.eq_of_key (hsame ▸ hu) ht (Task.static_id hst)
          exact .inl (hclose.rests hP hu hp)
        · exact .inr hop

/-- Neither release nor blocking makes a launched task wait for its launch. -/
theorem Close.unlaunched_of (h : Close st c c₁ x c') {t' : Task} (ht' : t' ∈ c'.tasks)
    (hp : t'.status.unlaunched = true) :
    ∃ t ∈ c₁.tasks, t.id = t'.id ∧ t.status.unlaunched = true := by
  cases h with
  | leave => exact ⟨t', ht', rfl, hp⟩
  | release =>
    obtain ⟨sequence, hrows, -⟩ := (releaseReady_released c₁).rows
    rw [Table.mem_def, hrows] at ht'
    obtain ⟨t, ht, rfl⟩ := List.mem_map.mp ht'
    split at hp
    · rename_i hq
      refine ⟨t, ht, by rw [if_pos hq]; rfl, ?_⟩
      rw [releasable_queued hq]
      rfl
    · rename_i hq
      exact ⟨t, ht, by rw [if_neg hq], hp⟩
  | block =>
    obtain ⟨t, ht, rfl⟩ := mem_blockFailedDependencies.mp ht'
    by_cases hd : Doomed c₁.tasks t
    · rw [afterBlocking_doomed hd] at hp
      cases hp
    · rw [afterBlocking_spared hd] at hp ⊢
      exact ⟨t, ht, rfl, hp⟩

/-- A task that waits for its launch did so before, or is new, or is retried. -/
theorem Step.unlaunched_of (hs : Slots d.toPlatform c) (h : Step d op x c c') {t' : Task}
    (ht' : t' ∈ c'.tasks) (hp : t'.status.unlaunched = true) :
    (∃ t ∈ c.tasks, t.id = t'.id ∧ t.status.unlaunched = true) ∨ (∀ t ∈ c.tasks, t.id ≠ t'.id) ∨
      ∃ spec, op = .queueRetry spec := by
  cases h with
  | submit hsub =>
    by_cases hold : ∃ t ∈ c.tasks, t.id = t'.id
    · obtain ⟨p, launchId, stamp, -, -, hi⟩ := hsub.inserted
      obtain ⟨new, hr, -⟩ := hi.rows
      obtain ⟨t, ht, hid⟩ := hold
      have hm : t ∈ c'.tasks := Table.mem_def.mpr (hr ▸ List.mem_append_left new ht)
      obtain rfl : t = t' := Table.eq_of_key hm ht' hid
      exact .inl ⟨t, ht, rfl, hp⟩
    · exact .inr (.inl fun t ht hid => hold ⟨t, ht, hid⟩)
  | move hm =>
    obtain ⟨st, c₁, hturn, hclose, hnamed⟩ := hm.split hs
    obtain ⟨u, hu, hid, hup⟩ := hclose.unlaunched_of ht' hp
    obtain hold | ⟨hst, harc⟩ := hturn.turned u hu
    · exact .inl ⟨u, hold, hid, hup⟩
    · -- only a retry turns a task that way
      obtain ⟨t, ht, htst⟩ := hturn.toKept.task_of hu
      have hturned := harc t ht (Task.static_id htst)
      generalize t.status = before at hturned
      rw [hst] at hup
      refine .inr (.inr (hnamed.ready ?_))
      cases hturned with
      | retry => rfl
      | exit _ hset => cases st <;> first | cases hset; done | cases hup
      | _ => cases hup

end Rests
end Orchestrator.Store
