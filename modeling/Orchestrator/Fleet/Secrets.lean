import Orchestrator.Fleet.Rebinds
import Orchestrator.Fleet.Rejoin

/-!
# Who can register a Host

Every Host goes on having secrets with which a process registers it: its launch, the run of the
launch and the origin of the run stay in the store, and a rebind puts another origin in the place
of the old.
-/
namespace Orchestrator.Store
open Library

/-- A token of the launch has been given out, and a run has a task of the launch. -/
structure DB.Known (d : DB) (s : State) (launchId : String) : Prop where
  token : ∃ l ∈ s.hostLaunches, l.id = launchId ∧
    ∃ token, token ≠ "" ∧ l.tokenHash = d.runtimeHash token
  run : ∃ t ∈ s.tasks, t.hostLaunchId = launchId ∧ ∃ r ∈ s.runs, r.id = t.runId

/-- The launch says what a `HostHello` has to say. -/
def HostLaunch.Identified (l : HostLaunch) : Prop :=
  l.originContextId ≠ "" ∧ l.hostGeneration ≠ "" ∧ l.executable ≠ ""

/-- The run has a process as its origin. -/
def Run.Originates (r : Run) : Prop := 0 < r.originPid ∧ r.originBirth ≠ ""

structure DB.Manned (d : DB) (s : State) : Prop where
  runs : ∀ r ∈ s.runs, r.Originates
  launches : ∀ l ∈ s.hostLaunches, l.Identified
  hosts : ∀ h ∈ s.hosts, d.Known s h.launchId

section Secrets
variable {d : DB} {s s' : State} {op : Op} {limits : ConcurrencyLimits} {launchId : String}
  {h : RuntimeHost} {epoch : Nat}

theorem launchRun_mem {r : Run} (hr : s.launchRun launchId = some r) :
    r ∈ s.runs ∧ ∃ t ∈ s.tasks, t.hostLaunchId = launchId ∧ r.id = t.runId := by
  obtain ⟨t, ht, hfind⟩ := List.exists_of_findSome?_eq_some hr
  obtain ⟨hm, hid⟩ := Table.find?_eq_some.mp hfind
  obtain ⟨ht, hlaunch⟩ := List.mem_filter.mp ht
  exact ⟨hm, t, Table.mem_def.mpr ht, of_decide_eq_true hlaunch, hid⟩

theorem DB.Known.launchRun (hk : d.Known s launchId) : ∃ r, s.launchRun launchId = some r := by
  obtain ⟨t, ht, hlaunch, r, hr, hid⟩ := hk.run
  refine Option.isSome_iff_exists.mp (List.findSome?_isSome_iff.mpr ⟨t, ?_, ?_⟩)
  · exact List.mem_filter.mpr ⟨Table.mem_def.mp ht, decide_eq_true hlaunch⟩
  · rw [Table.find?_eq_some.mpr ⟨hr, hid⟩]
    rfl

/-! ## What an operation keeps -/

theorem exec_originates (hx : d.exec s op = .ok s') (hall : ∀ r ∈ s.runs, r.Originates) :
    ∀ r ∈ s'.runs, r.Originates := by
  by_cases hplan : ∃ env p, op = .submitPlan env p
  · obtain ⟨env, p, rfl⟩ := hplan
    obtain ⟨receipt, h⟩ := committed_ok.mp hx
    simp only [DB.submitPlan, DB.validatePlan, bind_ok_iff, require_ok, expect_ok, exists_const,
      Except.ok.injEq, Prod.mk.injEq] at h
    obtain ⟨mode, -, _, ⟨⟨-, -, -, -, hpid, hbirth⟩, -⟩, -, runs, hruns, -, -, -, -, rfl, -⟩ := h
    intro r hr
    rcases (Table.mem_insert hruns).mp hr with hr | rfl
    · exact hall r hr
    · exact ⟨hpid, hbirth⟩
  have hplan : ∀ env p, op ≠ .submitPlan env p := fun env p heq => hplan ⟨env, p, heq⟩
  by_cases hrebind : ∃ spec, op = .rebindOwner spec
  · obtain ⟨spec, rfl⟩ := hrebind
    obtain ⟨u, h⟩ := committed_ok.mp hx
    obtain ⟨hmay, ⟨_, -, -, -, -, rfl⟩ | ⟨rebinds, -, rfl⟩⟩ := rebindOwner_cases h
    · exact hall
    · intro r' hr'
      obtain ⟨r, hr, rfl⟩ := (Table.mem_update (h := by intro _; rfl)).mp hr'
      by_cases hid : r.id = spec.runId
      · rw [Table.patch_pos (by simpa using hid)]
        exact ⟨hmay.1.2.2.1, hmay.1.2.2.2.1⟩
      · rw [Table.patch_neg (by simpa using hid)]
        exact hall r hr
  · rw [(exec_owners hx hplan fun spec heq => hrebind ⟨spec, heq⟩).1]
    exact hall

theorem exec_identified (hx : d.exec s op = .ok s') (hall : ∀ l ∈ s.hostLaunches, l.Identified) :
    ∀ l ∈ s'.hostLaunches, l.Identified := by
  by_cases hplan : ∃ env p, op = .submitPlan env p
  · obtain ⟨env, p, rfl⟩ := hplan
    obtain ⟨receipt, h⟩ := committed_ok.mp hx
    simp only [DB.submitPlan, DB.validatePlan, bind_ok_iff, require_ok, expect_ok, exists_const,
      Except.ok.injEq, Prod.mk.injEq] at h
    obtain ⟨mode, -, _, ⟨hrun, hhost, -⟩, -, -, -, launches, hl, -, -, rfl, -⟩ := h
    intro l hlm
    rcases (Table.mem_insert hl).mp hlm with hlm | rfl
    · exact hall l hlm
    · exact ⟨hhost.1 ▸ hrun.2.2.2.1, hhost.2.1, hhost.2.2.1⟩
  have hplan : ∀ env p, op ≠ .submitPlan env p := fun env p heq => hplan ⟨env, p, heq⟩
  by_cases hrebind : ∃ spec, op = .rebindOwner spec
  · obtain ⟨spec, rfl⟩ := hrebind
    obtain ⟨u, h⟩ := committed_ok.mp hx
    obtain ⟨hmay, ⟨_, -, -, -, -, rfl⟩ | ⟨rebinds, -, rfl⟩⟩ := rebindOwner_cases h
    · exact hall
    · intro l' hl'
      obtain ⟨l, hl, rfl⟩ := (Table.mem_update (h := by intro _; rfl)).mp hl'
      by_cases howns : s.ownsLaunch spec.runId l.id = true
      · rw [Table.patch_pos (p := fun l : HostLaunch => s.ownsLaunch spec.runId l.id) howns]
        exact ⟨(hall l hl).1, hmay.1.2.2.2.2.1, (hall l hl).2.2⟩
      · rw [Table.patch_neg (p := fun l : HostLaunch => s.ownsLaunch spec.runId l.id)
          (by simpa using howns)]
        exact hall l hl
  · intro l' hl'
    obtain ⟨l, hl, heq⟩ := exec_launches hx hplan (fun spec heq => hrebind ⟨spec, heq⟩) hl'
    rw [heq]
    exact hall l hl

theorem Enlists.token_kept {hosts : Table RuntimeHost.id} {launches : Table HostLaunch.id}
    (he : Enlists d s op hosts launches) {l : HostLaunch} (hl : l ∈ s.hostLaunches) :
    ∃ k ∈ launches, k.id = l.id ∧ k.tokenHash = l.tokenHash := by
  have hkept : ∀ (p : HostLaunch → Bool) (f : HostLaunch → HostLaunch)
      (hf : ∀ k, (f k).id = k.id), (∀ k, (f k).tokenHash = k.tokenHash) →
      ∃ k ∈ s.hostLaunches.update p f hf, k.id = l.id ∧ k.tokenHash = l.tokenHash :=
    fun p f hf htoken => ⟨_, Table.patch_mem_update hl, Table.patch_field HostLaunch.id hf l,
      Table.patch_field HostLaunch.tokenHash htoken l⟩
  cases he with
  | none => exact ⟨l, hl, rfl, rfl⟩
  | plan _ _ hi => exact ⟨l, (Table.mem_insert hi).mpr (.inl hl), rfl, rfl⟩
  | authorize => exact ⟨l, hl, rfl, rfl⟩
  | offline =>
    split
    · exact hkept _ _ _ fun _ => rfl
    · exact ⟨l, hl, rfl, rfl⟩
  | _ => exact hkept _ _ _ fun _ => rfl

/-- What is known of a launch stays known. -/
theorem DB.Known.exec (hk : d.Known s launchId) (hb : Bound s) (hx : d.exec s op = .ok s') :
    d.Known s' launchId where
  token := by
    obtain ⟨l, hl, hid, token, hne, hhash⟩ := hk.token
    obtain ⟨k, hkm, hkid, hkhash⟩ := (exec_enlists hx).token_kept hl
    exact ⟨k, hkm, hkid.trans hid, token, hne, hkhash.trans hhash⟩
  run := by
    obtain ⟨t, ht, hlaunch, r, hr, hid⟩ := hk.run
    obtain ⟨t', ht', hst⟩ := (exec_effect hb hx).step.grows.task ht
    obtain ⟨r', hr', hid', -⟩ := exec_deliveryMode_of_run hx hr
    refine ⟨t', ht', (Task.static_hostLaunchId hst).trans hlaunch, r', hr', ?_⟩
    rw [hid', hid, Task.static_runId hst]

/-- A process that registers knows the launch. -/
theorem registerHost_known {hello : HostHello} {hostId : String}
    (hx : d.registerHost s hello epoch = .ok (s', hostId)) : d.Known s hello.launchId := by
  simp only [DB.registerHost, bind_ok_iff, require_ok, expect_ok, exists_const] at hx
  obtain ⟨hshape, l, hl, hsecrets, r, hr, -⟩ := hx
  obtain ⟨hm, hid⟩ := Table.find?_eq_some.mp hl
  obtain ⟨hrm, t, ht, hlaunch, hrid⟩ := launchRun_mem hr
  exact ⟨⟨l, hm, hid, hello.launchToken, hshape.2.1, hsecrets.1⟩, t, ht, hlaunch, r, hrm, hrid⟩

/-- A Host has registered before, or its launch registers it now. -/
theorem Enlists.host_launch {hosts : Table RuntimeHost.id} {launches : Table HostLaunch.id}
    (he : Enlists d s op hosts launches) (hm : h ∈ hosts) :
    (∃ k ∈ s.hosts, k.launchId = h.launchId) ∨
      ∃ hello epoch, op = .registerHost hello epoch ∧ hello.launchId = h.launchId := by
  have hkept : ∀ (p : RuntimeHost → Bool) (f : RuntimeHost → RuntimeHost)
      (hf : ∀ k, (f k).id = k.id), h ∈ s.hosts.update p f hf →
      (∀ k, (f k).launchId = k.launchId) → ∃ k ∈ s.hosts, k.launchId = h.launchId := by
    intro p f hf hm hlaunch
    obtain ⟨k, hk, rfl⟩ := Table.mem_update.mp hm
    exact ⟨k, hk, (Table.patch_field RuntimeHost.launchId hlaunch k).symm⟩
  cases he with
  | none => exact .inl ⟨h, hm, rfl⟩
  | plan => exact .inl ⟨h, hm, rfl⟩
  | @register hello epoch l _ _ _ _ _ hh =>
    rcases (mem_upsertHost hh).mp hm with ⟨hold, -⟩ | ⟨k, hk, -, rfl⟩ | ⟨rfl, -⟩
    · exact .inl ⟨h, hold, rfl⟩
    · exact .inl ⟨k, hk, rfl⟩
    · exact .inr ⟨hello, epoch, rfl, rfl⟩
  | _ => exact .inl (hkept _ _ _ hm fun _ => rfl)

theorem DB.Manned.exec (hs : d.Manned s) (hb : Bound s) (hx : d.exec s op = .ok s') :
    d.Manned s' where
  runs := exec_originates hx hs.runs
  launches := exec_identified hx hs.launches
  hosts := fun h hm => by
    rcases (exec_enlists hx).host_launch hm with ⟨k, hk, hlaunch⟩ | ⟨hello, epoch, rfl, hlaunch⟩
    · exact hlaunch ▸ (hs.hosts k hk).exec hb hx
    · obtain ⟨hostId, hreg⟩ := committed_ok.mp hx
      exact hlaunch ▸ (registerHost_known hreg).exec hb hx

theorem manned_of_reachable (hr : d.Reachable limits s) : d.Manned s :=
  (reachable_induct (P := fun s => Bound s ∧ d.Manned s)
    ⟨bound_fresh limits, fun _ h => (by cases h), fun _ h => (by cases h), fun _ h => by cases h⟩
    (fun _ _ _ hs hx => ⟨(exec_effect hs.1 hx).bound, hs.2.exec hs.1 hx⟩) hr).2

/-- Some other process can say what `RegisterHost` asks of a process of the launch. -/
theorem DB.Manned.admits (hm : d.Manned s) (hs : Seated s) (hh : h ∈ s.hosts) (he : epoch ≠ 0) :
    ∃ hello, d.Admits s hello epoch ∧ hello.launchId = h.launchId ∧ hello.pid ≠ h.pid := by
  have hknown := hm.hosts h hh
  obtain ⟨l, hl, hid, token, htoken, hhash⟩ := hknown.token
  obtain ⟨r, hr⟩ := hknown.launchRun
  obtain ⟨hpid, hbirth⟩ := hm.runs r (launchRun_mem hr).1
  obtain ⟨horigin, hgeneration, hexecutable⟩ := hm.launches l hl
  have hlaunch : h.launchId ≠ "" := hs.launched h hh ▸ (hs.enrolled h hh).1
  refine ⟨{ launchId := h.launchId
            launchToken := token
            originContextId := l.originContextId
            originPid := r.originPid
            originBirth := r.originBirth
            hostGeneration := l.hostGeneration
            pid := h.pid.natAbs + 1
            birth := "birth"
            executable := l.executable }, ⟨?_, ?_, ?_⟩, rfl, ?_⟩
  · exact ⟨hlaunch, htoken, horigin, hpid, hbirth, hgeneration, by dsimp only; omega, by simp,
      hexecutable, he⟩
  · exact ⟨l, hl, hid, hhash, rfl, rfl, rfl⟩
  · exact ⟨r, hr, rfl, rfl⟩
  · dsimp only
    omega

end Secrets
end Orchestrator.Store
