import Orchestrator.Fleet.Moves

/-!
# At most four Hosts

A plan is admitted while fewer than four launches are held. Nothing else asks
for the count: an operation that takes a released launch back raises it beyond
the cap, and otherwise the cap holds.
-/
namespace Orchestrator.Store
open Library

def HostLaunch.held (l : HostLaunch) : Bool := l.status ≠ .released

def State.heldLaunches (s : State) : Nat := s.hostLaunches.count HostLaunch.held

/-- Released launches among those selected. -/
def State.releasedLaunches (s : State) (p : HostLaunch → Bool) : Nat :=
  s.hostLaunches.count (fun l => p l && !l.held)

/-- The released launches that the operation takes back, once it is accepted. -/
def State.revived (s : State) : Op → Nat
  | .registerHost hello _ => s.releasedLaunches (fun l => l.id = hello.launchId)
  | .beginHostReconcile hostId | .finishHostReconcile hostId =>
    s.releasedLaunches (fun l => l.hostId = some hostId)
  | .markHostOffline hostId epoch =>
    if s.hosts.count (fun h => h.readyIn hostId epoch) = 1 then
      s.releasedLaunches (fun l => l.hostId = some hostId) else 0
  | .rebindOwner spec =>
    if (s.ownerRebinds.find? (spec.runId, spec.hostGeneration)).isSome then 0
    else s.releasedLaunches (fun l => s.ownsLaunch spec.runId l.id)
  | _ => 0

/-- When it is accepted, the operation takes back no more launches than the cap leaves room for. -/
def DB.KeepsCap (d : DB) (s : State) (op : Op) : Prop :=
  (d.exec s op).isOk = true → 0 < s.revived op → s.heldLaunches + s.revived op ≤ 4

section Cap
variable {d : DB} {s s' : State} {op : Op}

theorem held_setLaunchStatus {launches : Table HostLaunch.id} {hostId : String}
    {status : LaunchStatus} (h : status ≠ .released) :
    (setLaunchStatus launches hostId status).count HostLaunch.held =
      launches.count HostLaunch.held +
        launches.count (fun l => l.hostId = some hostId && !l.held) :=
  Table.count_update_add fun _ _ => decide_eq_true h

/-- A plan takes one launch while fewer than four are held; a retired Host gives
its launches up; every other operation adds those it takes back. -/
theorem exec_held (h : d.exec s op = .ok s') :
    s'.heldLaunches = s.heldLaunches + s.revived op ∨
      (s.revived op = 0 ∧ (s'.heldLaunches ≤ s.heldLaunches ∨
        s.heldLaunches < 4 ∧ s'.heldLaunches = s.heldLaunches + 1)) := by
  have hm := exec_enlists h
  unfold State.heldLaunches
  generalize s'.hosts = hosts at hm
  generalize s'.hostLaunches = launches at hm
  cases hm with
  | none hop =>
    refine .inl ?_
    rcases hop with hop | ⟨spec, rfl, hold⟩
    · have hzero : s.revived op = 0 := by
        cases op <;> first | rfl | cases hop
      rw [hzero, Nat.add_zero]
    · rw [State.revived, if_pos hold, Nat.add_zero]
  | plan hcap hrow hl =>
    refine .inr ⟨rfl, .inr ⟨hcap, ?_⟩⟩
    rw [Table.count_insert hl, if_pos (by simp [HostLaunch.held, hrow.1])]
  | epoch =>
    refine .inr ⟨rfl, .inl (Table.count_update_le fun l _ hl => ?_)⟩
    by_cases hready : l.status = .ready
    · simp [HostLaunch.held, hready]
    · rwa [Table.patch_neg (by simpa using hready)] at hl
  | register =>
    exact .inl (Table.count_update_add fun l _ => rfl)
  | authorize => exact .inl rfl
  | reconcile => exact .inl (held_setLaunchStatus (by simp))
  | ready => exact .inl (held_setLaunchStatus (by simp))
  | @offline hostId epoch =>
    refine .inl ?_
    rw [State.revived]
    split
    · exact held_setLaunchStatus (by simp)
    · rfl
  | @retire hostId =>
    refine .inr ⟨rfl, .inl (Table.count_update_le fun l _ hl => ?_)⟩
    by_cases hid : l.hostId = some hostId
    · rw [Table.patch_pos (by simpa using hid)] at hl
      cases hl
    · rwa [Table.patch_neg (by simpa using hid)] at hl
  | rebind hnew =>
    refine .inl ?_
    rw [State.revived, hnew]
    exact Table.count_update_add fun l _ => rfl

/-- Every state of a run holds at most four launches exactly if no step of it
takes back more launches than there is room for. -/
theorem launches_capped_iff (d : DB) (limits : ConcurrencyLimits) (ops : List Op) :
    (∀ before, before <+: ops → (d.run (State.fresh limits) before).heldLaunches ≤ 4) ↔
      AllSteps d.step d.KeepsCap (State.fresh limits) ops := by
  have hfresh : (State.fresh limits).heldLaunches ≤ 4 := Nat.zero_le 4
  refine prefixes_iff_allSteps (K := fun s : State => s.heldLaunches ≤ 4) hfresh (fun _ h => h)
    (fun s op h hc => ?_) fun s op h hafter => ?_
  · refine step_induct (P := fun s : State => s.heldLaunches ≤ 4) h fun s' hx => ?_
    rcases exec_held hx with heq | ⟨-, hle | ⟨hlt, heq⟩⟩
    · rw [heq]
      by_cases hr : 0 < s.revived op
      · exact hc (by rw [hx]; rfl) hr
      · omega
    · omega
    · omega
  · intro hok hr
    obtain ⟨s', hx⟩ := exists_of_isOk hok
    rw [step_of_exec hx] at hafter
    rcases exec_held hx with heq | ⟨hzero, -⟩
    · exact heq ▸ hafter
    · omega

end Cap

/-! ## A launch that comes back -/

/-- The `n`th plan, for a Host of its own. -/
def toyPlanOf (n : Nat) : Op :=
  .submitPlan (toyEnv n) { toyPlan [
      { toyTask ("a" ++ toString n) 1 [] with runId := "run" ++ toString n }] with
    run := { (toyPlan []).run with id := "run" ++ toString n }
    launchId := "host" ++ toString n }

/-- Four Hosts, the first of them retired and replaced; then it registers again. -/
def returningOps : List Op :=
  [.beginCoordinatorEpoch 1, toyPlanOf 1, toyPlanOf 2, toyPlanOf 3, toyPlanOf 4,
    .registerHost { toyHello with launchId := "host1" } 1, .retireHost "host1", toyPlanOf 5,
    .registerHost { toyHello with launchId := "host1" } 1]

theorem returning_launch_exceeds :
    ¬ (toyDB.run (State.fresh {}) returningOps).heldLaunches ≤ 4 := by
  decide +kernel

end Orchestrator.Store
