import Orchestrator.Invariants.Writes

/-!
# What an operation does to Hosts and their launches

`Enlists` lists the rewrites of the two tables of Hosts, one for each operation
that makes any, with the checks it has passed.
-/
namespace Orchestrator.Store
open Library

/-- `markHostOffline` matches the Host, ready in the epoch. -/
def RuntimeHost.readyIn (h : RuntimeHost) (hostId : String) (epoch : Nat) : Bool :=
  h.id = hostId && h.coordinatorEpoch = epoch && h.status = .ready

/-- `authorizeHostRebind` matches the process, offline. -/
def RuntimeHost.offlineAs (h : RuntimeHost) (launchId : String) (pid : Int) (birth : String) :
    Bool :=
  h.launchId = launchId && h.pid = pid && h.birth = birth && h.status = .offline

/-- The row of a Host that registers. -/
def registeredHost (hello : HostHello) (hostId : String) (epoch : Nat) : RuntimeHost where
  id := hostId
  launchId := hello.launchId
  originContextId := hello.originContextId
  hostGeneration := hello.hostGeneration
  pid := hello.pid
  birth := hello.birth
  executable := hello.executable
  coordinatorEpoch := epoch
  status := .ready

/-- The id under which a launch registers. -/
def registeredId (hello : HostHello) (l : HostLaunch) : String :=
  if l.hostId.getD "" = "" then hello.launchId else l.hostId.getD ""

/-- An upsert writes the process of a row over another, and sets it ready. -/
def RuntimeHost.over (h row : RuntimeHost) : RuntimeHost :=
  { h with
    pid := row.pid
    birth := row.birth
    executable := row.executable
    coordinatorEpoch := row.coordinatorEpoch
    status := .ready }

/-- An upsert leaves the rows of other ids, and has the row written over the one of its id, or
new. -/
theorem mem_upsertHost {hosts hosts' : Table RuntimeHost.id} {h row : RuntimeHost}
    (hu : upsertHost hosts row = some hosts') :
    h ∈ hosts' ↔ (h ∈ hosts ∧ h.id ≠ row.id) ∨ (∃ k ∈ hosts, k.id = row.id ∧ h = k.over row) ∨
      h = row ∧ ∀ k ∈ hosts, k.id ≠ row.id := by
  unfold upsertHost at hu
  split at hu
  · rename_i k hk
    cases hu
    obtain ⟨hkm, hkid⟩ := Table.find?_eq_some.mp hk
    refine (Table.mem_update (h := by intro _; rfl)).trans ⟨?_, ?_⟩
    · rintro ⟨a, ha, rfl⟩
      by_cases hid : a.id = row.id
      · rw [Table.patch_pos (by simpa using hid)]
        exact .inr (.inl ⟨a, ha, hid, rfl⟩)
      · rw [Table.patch_neg (by simpa using hid)]
        exact .inl ⟨ha, hid⟩
    · rintro (⟨ha, hid⟩ | ⟨a, ha, hid, rfl⟩ | ⟨-, hfresh⟩)
      · exact ⟨h, ha, Table.patch_neg (by simpa using hid)⟩
      · exact ⟨a, ha, Table.patch_pos (by simpa using hid)⟩
      · exact absurd hkid (hfresh k hkm)
  · rename_i hnone
    have hfresh := Table.find?_eq_none.mp hnone
    split at hu
    · refine (Table.mem_insert hu).trans ⟨?_, ?_⟩
      · rintro (ha | rfl)
        · exact .inl ⟨ha, hfresh h ha⟩
        · exact .inr (.inr ⟨rfl, hfresh⟩)
      · rintro (⟨ha, -⟩ | ⟨a, ha, hid, -⟩ | ⟨rfl, -⟩)
        · exact .inl ha
        · exact absurd hid (hfresh a ha)
        · exact .inr rfl
    · cases hu

inductive Enlists (d : DB) (s : State) : Op → Table RuntimeHost.id → Table HostLaunch.id → Prop
  | none {op : Op} (h : op.fleet = false ∨ ∃ spec, op = .rebindOwner spec ∧
      (s.ownerRebinds.find? (spec.runId, spec.hostGeneration)).isSome = true)
      (hplan : ∀ env p, op ≠ .submitPlan env p) : Enlists d s op s.hosts s.hostLaunches
  | plan {env : Env} {p : PlanSpec} {row : HostLaunch} {launches : Table HostLaunch.id}
      (hcap : s.hostLaunches.count (fun l => l.status ≠ .released) < 4)
      (hrow : row.status = .reserved ∧ row.hostId = .none)
      (hl : s.hostLaunches.insert? row = some launches) :
      Enlists d s (.submitPlan env p) s.hosts launches
  | epoch {epoch : Nat} : Enlists d s (.beginCoordinatorEpoch epoch)
      (s.hosts.update (fun _ => true)
        (fun h => { h with status := .offline, coordinatorEpoch := epoch }))
      (s.hostLaunches.update (fun l => l.status = .ready) (fun l => { l with status := .offline }))
  | register {hello : HostHello} {epoch : Nat} {l : HostLaunch} {hosts : Table RuntimeHost.id}
      (hl : l ∈ s.hostLaunches) (hid : l.id = hello.launchId) (hne : hello.launchId ≠ "")
      (hmay : s.mayRegister (l.hostId.getD "") hello = .ok ())
      (hh : upsertHost s.hosts (registeredHost hello (registeredId hello l) epoch) = some hosts) :
      Enlists d s (.registerHost hello epoch) hosts
        (s.hostLaunches.update (fun l => l.id = hello.launchId)
          (fun k => { k with hostId := some (registeredId hello l), status := .ready }))
  | authorize {launchId : String} {pid : Int} {birth : String}
      (hone : s.hosts.count (fun h => h.offlineAs launchId pid birth) = 1) :
      Enlists d s (.authorizeHostRebind launchId pid birth)
        (s.hosts.update (fun h => h.offlineAs launchId pid birth)
          (fun h => { h with status := .reconcileAuthorized })) s.hostLaunches
  | reconcile {hostId : String} : Enlists d s (.beginHostReconcile hostId)
      (s.hosts.update (fun h => h.id = hostId) (fun h => { h with status := .reconciling }))
      (setLaunchStatus s.hostLaunches hostId .reconciling)
  | ready {hostId : String} : Enlists d s (.finishHostReconcile hostId)
      (s.hosts.update (fun h => h.id = hostId && h.status = .reconciling)
        (fun h => { h with status := .ready }))
      (setLaunchStatus s.hostLaunches hostId .ready)
  | offline {hostId : String} {epoch : Nat} : Enlists d s (.markHostOffline hostId epoch)
      (s.hosts.update (fun h => h.readyIn hostId epoch) (fun h => { h with status := .offline }))
      (if s.hosts.count (fun h => h.readyIn hostId epoch) = 1 then
        setLaunchStatus s.hostLaunches hostId .offline else s.hostLaunches)
  | retire {hostId : String} : Enlists d s (.retireHost hostId)
      (s.hosts.update (fun h => h.id = hostId && h.status = .ready)
        (fun h => { h with status := .released }))
      (setLaunchStatus s.hostLaunches hostId .released)
  | rebind {spec : RebindOwnerSpec}
      (hnew : s.ownerRebinds.find? (spec.runId, spec.hostGeneration) = .none)
      (hidle : s.runActive spec.runId = 0) :
      Enlists d s (.rebindOwner spec)
        (s.hosts.update (fun h => s.ownsLaunch spec.runId h.launchId)
          (fun h => { h with hostGeneration := spec.hostGeneration, status := .offline }))
        (s.hostLaunches.update (fun l => s.ownsLaunch spec.runId l.id)
          (fun l => { l with hostGeneration := spec.hostGeneration, status := .offline }))

section Exec
variable {d : DB} {s s' : State} {op : Op}

theorem registerHost_enlists {hello : HostHello} {epoch : Nat} {r : String}
    (h : d.registerHost s hello epoch = .ok (s', r)) :
    Enlists d s (.registerHost hello epoch) s'.hosts s'.hostLaunches := by
  simp only [DB.registerHost, bind_ok_iff, require_ok, expect_ok, exists_const, Except.ok.injEq,
    Prod.mk.injEq] at h
  obtain ⟨hshape, l, hl, -, run, -, -, _, hmay, hosts, hh, rfl, -⟩ := h
  obtain ⟨hm, hid⟩ := Table.find?_eq_some.mp hl
  exact .register hm hid hshape.1 hmay hh

/-- A rebind repeats the one that is stored, or moves the Hosts of its run. -/
theorem rebindOwner_enlists {spec : RebindOwnerSpec} {r : Unit}
    (h : d.rebindOwner s spec = .ok (s', r)) :
    Enlists d s (.rebindOwner spec) s'.hosts s'.hostLaunches := by
  simp only [DB.rebindOwner, bind_ok_iff, require_ok, expect_ok, exists_const] at h
  obtain ⟨-, run, -, generation, -, -, h⟩ := h
  split at h
  · rename_i hold
    simp only [bind_ok_iff, require_ok, exists_const, Except.ok.injEq, Prod.mk.injEq] at h
    obtain ⟨-, rfl, -⟩ := h
    exact .none (.inr ⟨_, rfl, by rw [hold]; rfl⟩) fun _ _ h => by cases h
  · rename_i hnew
    simp only [bind_ok_iff, require_ok, expect_ok, exists_const, Except.ok.injEq,
      Prod.mk.injEq] at h
    obtain ⟨-, hidle, rebinds, -, rfl, -⟩ := h
    exact .rebind hnew hidle

theorem fleet_enlists (hop : op.fleet = true) (h : d.exec s op = .ok s') :
    Enlists d s op s'.hosts s'.hostLaunches := by
  cases op <;> simp only [Op.fleet, Bool.false_eq_true] at hop <;>
    simp only [DB.exec, committed_ok] at h <;> obtain ⟨r, h⟩ := h
  case beginCoordinatorEpoch =>
    simp only [beginCoordinatorEpoch, bind_ok_iff, require_ok, exists_const, Except.ok.injEq,
      Prod.mk.injEq] at h
    obtain ⟨-, rfl, -⟩ := h
    exact .epoch
  case registerHost => exact registerHost_enlists h
  case authorizeHostRebind =>
    simp only [authorizeHostRebind, bind_ok_iff, require_ok, exists_const, Except.ok.injEq,
      Prod.mk.injEq] at h
    obtain ⟨hone, rfl, -⟩ := h
    exact .authorize hone
  case rebindOwner => exact rebindOwner_enlists h
  case beginHostReconcile => cases h; exact .reconcile
  case finishHostReconcile => cases h; exact .ready
  case markHostOffline => cases h; exact .offline
  case retireHost => cases h; exact .retire

theorem submitPlan_enlists {env : Env} {p : PlanSpec} (h : d.exec s (.submitPlan env p) = .ok s') :
    Enlists d s (.submitPlan env p) s'.hosts s'.hostLaunches := by
  obtain ⟨r, h⟩ := committed_ok.mp h
  simp only [DB.submitPlan, bind_ok_iff, require_ok, expect_ok, exists_const, Except.ok.injEq,
    Prod.mk.injEq] at h
  obtain ⟨mode, -, _, -, hcap, runs, -, launches, hl, core, -, rfl, -⟩ := h
  exact .plan hcap ⟨rfl, rfl⟩ hl

/-- The other operations leave both tables alone. -/
theorem exec_leaves_fleet (hrest : op.fleet = false) (hother : ∀ env p, op ≠ .submitPlan env p)
    (h : d.exec s op = .ok s') : Enlists d s op s'.hosts s'.hostLaunches := by
  cases exec_writes h with
  | plan => exact absurd rfl (hother _ _)
  | fleet hop => exact absurd hop (by simp [hrest])
  | claim hc =>
    obtain ⟨c₁, c₂, caps, -, -, -, rfl, -⟩ := launch_cases hc.launched
    exact .none (.inl rfl) hother
  | report _ _ _ _ _ h₁ h₂ =>
    obtain ⟨row, events, order, usage, -, -, -, rfl⟩ := appendReport_frame h₁
    obtain ⟨core, questions, stops, rfl⟩ := askReported_frame h₂
    exact .none (.inl rfl) hother
  | event _ _ _ _ _ h₁ h₂ =>
    obtain ⟨events, order, usage, rfl⟩ := appendEvent_frame h₁
    obtain ⟨core, reports, order, questions, sessions, stops, rfl⟩ := applyEvent_frame h₂
    exact .none (.inl rfl) hother
  | _ => exact .none (.inl hrest) hother

/-- Every accepted operation makes one of the rewrites. -/
theorem exec_enlists (h : d.exec s op = .ok s') : Enlists d s op s'.hosts s'.hostLaunches := by
  by_cases hop : op.fleet = true
  · exact fleet_enlists hop h
  · by_cases hplan : ∃ env p, op = .submitPlan env p
    · obtain ⟨env, p, rfl⟩ := hplan
      exact submitPlan_enlists h
    · exact exec_leaves_fleet (by simpa using hop) (fun env p h => hplan ⟨env, p, h⟩) h

end Exec
end Orchestrator.Store
