import Orchestrator.Events.Rounds
import Orchestrator.Fleet.Fence

/-!
# A Host that comes back

What `RegisterHost` asks of a process that names a launch, apart from whether the Host of
the launch may take the process.
-/
namespace Orchestrator.Store
open Library

/-- The process gives the secrets of its launch and the origin of its run. -/
structure DB.Admits (d : DB) (s : State) (hello : HostHello) (epoch : Nat) : Prop where
  shape : hello.launchId ≠ "" ∧ hello.launchToken ≠ "" ∧ hello.originContextId ≠ "" ∧
    0 < hello.originPid ∧ hello.originBirth ≠ "" ∧ hello.hostGeneration ≠ "" ∧ 0 < hello.pid ∧
    hello.birth ≠ "" ∧ hello.executable ≠ "" ∧ epoch ≠ 0
  launch : ∃ l ∈ s.hostLaunches, l.id = hello.launchId ∧
    l.tokenHash = d.runtimeHash hello.launchToken ∧
    l.originContextId = hello.originContextId ∧ l.hostGeneration = hello.hostGeneration ∧
    l.executable = hello.executable
  run : ∃ r, s.launchRun hello.launchId = some r ∧ r.originPid = hello.originPid ∧
    r.originBirth = hello.originBirth

structure HostBinding where
  hostId : String
  pid : Int
  birth : String
  active : Nat
  deriving DecidableEq, Repr

/-- `HostBinding`; `launch_id` is `UNIQUE`. -/
def State.hostBinding (s : State) (launchId : String) : Option HostBinding :=
  (s.hosts.rows.find? fun h => h.launchId = launchId).map fun h =>
    ⟨h.id, h.pid, h.birth, s.hostActive h.id⟩

/-- A Host and its launch have one id, under which the launch names it. -/
structure Seated (s : State) : Prop where
  enrolled : Enrolled s.hosts s.hostLaunches
  launched : ∀ h ∈ s.hosts, h.launchId = h.id
  named : ∀ l ∈ s.hostLaunches, ∀ id, l.hostId = some id → id = l.id

section Rejoin
variable {d : DB} {s s' : State} {op : Op} {h : RuntimeHost} {hosts : Table RuntimeHost.id}
  {launches : Table HostLaunch.id} {hello : HostHello} {epoch : Nat}

theorem upsertHost_kept {hosts' : Table RuntimeHost.id} {row : RuntimeHost}
    (hu : upsertHost hosts row = some hosts') :
    (∃ k ∈ hosts', k.id = row.id) ∧ ∀ h ∈ hosts, ∃ k ∈ hosts', k.id = h.id := by
  have hrow : ∃ k ∈ hosts', k.id = row.id := by
    by_cases hex : ∃ k ∈ hosts, k.id = row.id
    · obtain ⟨k, hk, hid⟩ := hex
      exact ⟨k.over row, (mem_upsertHost hu).mpr (.inr (.inl ⟨k, hk, hid, rfl⟩)), hid⟩
    · push Not at hex
      exact ⟨row, (mem_upsertHost hu).mpr (.inr (.inr ⟨rfl, hex⟩)), rfl⟩
  refine ⟨hrow, fun h hm => ?_⟩
  by_cases hid : h.id = row.id
  · exact hid ▸ hrow
  · exact ⟨h, (mem_upsertHost hu).mpr (.inl ⟨hm, hid⟩), rfl⟩

theorem registered_row {hostId : String} (hx : d.registerHost s hello epoch = .ok (s', hostId)) :
    ∃ h ∈ s'.hosts, h.id = hostId := by
  simp only [DB.registerHost, bind_ok_iff, require_ok, expect_ok, exists_const, Except.ok.injEq,
    Prod.mk.injEq] at hx
  obtain ⟨-, l, -, -, run, -, -, _, -, hosts, hu, rfl, rfl⟩ := hx
  exact (upsertHost_kept hu).1

/-! ## What a rewrite keeps of the Hosts -/

theorem Enlists.host_kept (he : Enlists d s op hosts launches) (hm : h ∈ s.hosts) :
    ∃ k ∈ hosts, k.id = h.id := by
  have hkept : ∀ (p : RuntimeHost → Bool) (f : RuntimeHost → RuntimeHost)
      (hf : ∀ k, (f k).id = k.id), ∃ k ∈ s.hosts.update p f hf, k.id = h.id :=
    fun p f hf => ⟨_, Table.patch_mem_update hm, Table.patch_field RuntimeHost.id hf h⟩
  cases he with
  | none => exact ⟨h, hm, rfl⟩
  | plan => exact ⟨h, hm, rfl⟩
  | register _ _ _ _ hh => exact (upsertHost_kept hh).2 h hm
  | _ => exact hkept _ _ _

/-- Everything but a new epoch and a registration leaves the epochs of the Hosts. -/
theorem Enlists.epochs (he : Enlists d s op hosts launches)
    (hbegin : ∀ e, op = .beginCoordinatorEpoch e → e = epoch)
    (hregister : ∀ hello e, op = .registerHost hello e → e = epoch)
    (hall : ∀ h ∈ s.hosts, h.coordinatorEpoch = epoch) :
    ∀ h ∈ hosts, h.coordinatorEpoch = epoch := by
  have hkept : ∀ (p : RuntimeHost → Bool) (f : RuntimeHost → RuntimeHost)
      (hf : ∀ k, (f k).id = k.id), (∀ k, (f k).coordinatorEpoch = k.coordinatorEpoch) →
      ∀ h ∈ s.hosts.update p f hf, h.coordinatorEpoch = epoch := by
    intro p f hf hsame h hm
    obtain ⟨k, hk, rfl⟩ := Table.mem_update.mp hm
    exact (Table.patch_field RuntimeHost.coordinatorEpoch hsame k).trans (hall k hk)
  intro h hm
  cases he with
  | none => exact hall h hm
  | plan => exact hall h hm
  | epoch =>
    obtain ⟨k, hk, rfl⟩ := (Table.mem_update (h := by intro _; rfl)).mp hm
    rw [Table.patch_pos rfl]
    exact hbegin _ rfl
  | register _ _ _ _ hh =>
    rcases (mem_upsertHost hh).mp hm with ⟨hm, -⟩ | ⟨k, -, -, rfl⟩ | ⟨rfl, -⟩
    · exact hall h hm
    · exact hregister _ _ rfl
    · exact hregister _ _ rfl
  | _ => exact hkept _ _ _ (by intro _; rfl) h hm

theorem Enlists.launched (he : Enlists d s op hosts launches)
    (hall : ∀ h ∈ s.hosts, h.launchId = h.id) : ∀ h ∈ hosts, h.launchId = h.id := by
  have hkept : ∀ (p : RuntimeHost → Bool) (f : RuntimeHost → RuntimeHost)
      (hf : ∀ k, (f k).id = k.id), (∀ k, (f k).launchId = k.launchId) →
      ∀ h ∈ s.hosts.update p f hf, h.launchId = h.id := by
    intro p f hf hsame h hm
    obtain ⟨k, hk, rfl⟩ := Table.mem_update.mp hm
    rw [Table.patch_field RuntimeHost.launchId hsame, Table.patch_field RuntimeHost.id hf]
    exact hall k hk
  intro h hm
  cases he with
  | none => exact hall h hm
  | plan => exact hall h hm
  | @register hello epoch l _ hl hid hne hmay hh =>
    rcases (mem_upsertHost hh).mp hm with ⟨hm, -⟩ | ⟨k, hk, -, rfl⟩ | ⟨rfl, hfresh⟩
    · exact hall h hm
    · exact hall k hk
    · by_cases hex : l.hostId.getD "" = ""
      · exact (if_pos hex).symm
      · -- the Host that the launch names is there already
        simp only [State.mayRegister, if_neg hex, bind_ok_iff, expect_ok] at hmay
        obtain ⟨k, hk, -⟩ := hmay
        obtain ⟨hkm, hkid⟩ := Table.find?_eq_some.mp hk
        exact absurd (hkid.trans (if_neg hex).symm) (hfresh k hkm)
  | _ => exact hkept _ _ _ (by intro _; rfl) h hm

theorem Enlists.names (he : Enlists d s op hosts launches)
    (hall : ∀ l ∈ s.hostLaunches, ∀ id, l.hostId = some id → id = l.id) :
    ∀ l ∈ launches, ∀ id, l.hostId = some id → id = l.id := by
  have hkept : ∀ (p : HostLaunch → Bool) (f : HostLaunch → HostLaunch)
      (hf : ∀ k, (f k).id = k.id), (∀ k, (f k).hostId = k.hostId) →
      ∀ l ∈ s.hostLaunches.update p f hf, ∀ id, l.hostId = some id → id = l.id := by
    intro p f hf hsame l hl
    obtain ⟨k, hk, rfl⟩ := Table.mem_update.mp hl
    rw [Table.patch_field HostLaunch.hostId hsame, Table.patch_field HostLaunch.id hf]
    exact hall k hk
  cases he with
  | none => exact hall
  | authorize => exact hall
  | plan _ hrow hi =>
    intro l hl id hname
    rcases (Table.mem_insert hi).mp hl with hl | rfl
    · exact hall l hl id hname
    · rw [hrow.2] at hname
      cases hname
  | @register hello epoch l _ hl hid _ _ _ =>
    intro l' hl' id hname
    obtain ⟨k, hk, rfl⟩ := (Table.mem_update (h := by intro _; rfl)).mp hl'
    by_cases hpick : k.id = hello.launchId
    · rw [Table.patch_pos (by simpa using hpick)] at hname ⊢
      obtain rfl : registeredId hello l = id := Option.some.inj hname
      rw [registeredId]
      split
      · exact hpick.symm
      · cases hex : l.hostId with
        | none => simp_all
        | some x => exact (hall l hl x hex).trans (hid.trans hpick.symm)
    · rw [Table.patch_neg (by simpa using hpick)] at hname ⊢
      exact hall k hk id hname
  | offline =>
    split
    · exact hkept _ _ _ fun _ => rfl
    · exact hall
  | epoch => exact hkept _ _ _ fun _ => rfl
  | rebind => exact hkept _ _ _ fun _ => rfl
  | _ => exact hkept _ _ _ fun _ => rfl

theorem Enlists.seated (he : Enlists d s op s'.hosts s'.hostLaunches) (hs : Seated s) :
    Seated s' :=
  ⟨he.enrolled hs.enrolled, he.launched hs.launched, he.names hs.named⟩

theorem seated_of_reachable {limits : ConcurrencyLimits} (hr : d.Reachable limits s) : Seated s :=
  reachable_induct ⟨fun _ h => (by cases h), fun _ h => (by cases h), fun _ h => by cases h⟩
    (fun _ _ _ hs hx => (exec_enlists hx).seated hs) hr

/-! ## Registration -/

/-- A process with the secrets of the launch registers, where the Host may take it. -/
theorem Seated.registers (hs : Seated s) (hm : h ∈ s.hosts) (ha : d.Admits s hello epoch)
    (hid : hello.launchId = h.launchId)
    (hmay : (h.pid = hello.pid ∧ h.birth = hello.birth) ∨ s.hostActive h.id = 0 ∨
      h.status = .reconcileAuthorized) :
    ∃ s', d.registerHost s hello epoch = .ok (s', h.id) := by
  obtain ⟨l, hl, hlid, hsecrets⟩ := ha.launch
  obtain ⟨r, hr, horigin⟩ := ha.run
  obtain ⟨hne, l', hl', hlid', hname⟩ := hs.enrolled h hm
  have hsame : l.id = l'.id := by rw [hlid, hid, hs.launched h hm, hlid']
  obtain rfl := Table.eq_of_key hl hl' hsame
  have hlaunch : s.hostLaunches.find? hello.launchId = some l :=
    Table.find?_eq_some.mpr ⟨hl, hlid⟩
  have hhost : s.hosts.find? h.id = some h := Table.find?_eq_some.mpr ⟨hm, rfl⟩
  have hfree : s.mayRegister h.id hello = .ok () := by
    simp only [State.mayRegister, if_neg hne, hhost, expect_some, ok_bind, require_pos hmay]
  simp only [DB.registerHost, require_pos ha.shape, hlaunch, expect_some, ok_bind,
    require_pos hsecrets, hr, require_pos horigin, hname, Option.getD_some, if_neg hne, hfree,
    upsertHost, hhost]
  exact ⟨_, rfl⟩

/-- The Host is offline, and whoever gives the secrets of its launch can take its place, also
while it has active segments. -/
def DB.Replaceable (d : DB) (s : State) (hostId : String) (epoch : Nat) : Prop :=
  ∃ h ∈ s.hosts, h.id = hostId ∧ h.status = .offline ∧
    ∀ hello, d.Admits s hello epoch → hello.launchId = h.launchId →
      ∃ s₁ s₂, authorizeHostRebind s h.launchId h.pid h.birth = .ok (s₁, ()) ∧
        d.registerHost s₁ hello epoch = .ok (s₂, h.id)

theorem Seated.replaceable (hs : Seated s) (hm : h ∈ s.hosts) (hoff : h.status = .offline) :
    d.Replaceable s h.id epoch := by
  refine ⟨h, hm, rfl, hoff, fun hello ha hid => ?_⟩
  have hpick : h.offlineAs h.launchId h.pid h.birth = true := by
    simp [RuntimeHost.offlineAs, hoff]
  have honly : ∀ a ∈ s.hosts, ∀ b ∈ s.hosts, a.offlineAs h.launchId h.pid h.birth = true →
      b.offlineAs h.launchId h.pid h.birth = true → a.id = b.id := by
    intro a ha b hb hpa hpb
    simp only [RuntimeHost.offlineAs, Bool.and_eq_true, decide_eq_true_eq] at hpa hpb
    rw [← hs.launched a ha, ← hs.launched b hb, hpa.1.1.1, hpb.1.1.1]
  have hone : s.hosts.count (fun k => k.offlineAs h.launchId h.pid h.birth) = 1 :=
    Nat.le_antisymm (Table.count_le_one honly) (Table.count_pos.mpr ⟨h, hm, hpick⟩)
  obtain ⟨s₁, hs₁⟩ : ∃ s₁, authorizeHostRebind s h.launchId h.pid h.birth = .ok (s₁, ()) :=
    ⟨_, bind_ok_iff.mpr ⟨(), require_ok.mpr hone, rfl⟩⟩
  have hexec : d.exec s (.authorizeHostRebind h.launchId h.pid h.birth) = .ok s₁ :=
    committed_ok.mpr ⟨(), hs₁⟩
  have hseated : Seated s₁ := (exec_enlists hexec).seated hs
  simp only [authorizeHostRebind, bind_ok_iff, require_ok, exists_const, Except.ok.injEq,
    Prod.mk.injEq, and_true] at hs₁
  obtain ⟨-, rfl⟩ := hs₁
  obtain ⟨s₂, hs₂⟩ := hseated.registers (h := { h with status := .reconcileAuthorized })
    ((Table.mem_update (h := by intro _; rfl)).mpr ⟨h, hm, Table.patch_pos hpick⟩)
    ⟨ha.shape, ha.launch, ha.run⟩ hid (.inr (.inr rfl))
  exact ⟨_, s₂, bind_ok_iff.mpr ⟨(), require_ok.mpr hone, rfl⟩, hs₂⟩

/-! ## A Host that reconciles -/

/-- A launch registers its Host under its own id. -/
theorem Seated.registered_id (hs : Seated s) {l : HostLaunch} (hl : l ∈ s.hostLaunches)
    (hid : l.id = hello.launchId) : registeredId hello l = hello.launchId := by
  rw [registeredId]
  split
  · rfl
  · rename_i hne
    cases hex : l.hostId with
    | none => exact absurd (by rw [hex]; rfl) hne
    | some x => exact (hs.named l hl x hex).trans hid

/-- Operations that leave a Host alone while it reconciles and has active segments: all but a
new epoch, a registration of its own process, the end of its reconcile, and another owner of its
run. -/
def Bypasses (s : State) (h : RuntimeHost) : Op → Prop
  | .beginCoordinatorEpoch _ => False
  | .registerHost hello _ =>
    ¬ (hello.launchId = h.launchId ∧ hello.pid = h.pid ∧ hello.birth = h.birth)
  | .finishHostReconcile hostId => hostId ≠ h.id
  | .rebindOwner spec => s.ownsLaunch spec.runId h.launchId = false
  | _ => True

theorem Enlists.bypassed (he : Enlists d s op hosts launches) (hs : Seated s) (hm : h ∈ s.hosts)
    (hrec : h.status = .reconciling) (hact : s.hostActive h.id ≠ 0) (hop : Bypasses s h op) :
    h ∈ hosts := by
  have hrest : ∀ (p : RuntimeHost → Bool) (f : RuntimeHost → RuntimeHost)
      (hf : ∀ k, (f k).id = k.id), p h = false → h ∈ s.hosts.update p f hf :=
    fun p f hf hp => Table.mem_update_of_not hm (by rw [hp])
  cases he with
  | none => exact hm
  | plan => exact hm
  | epoch => exact hop.elim
  | @register hello epoch l _ hl hid hne hmay hh =>
    refine (mem_upsertHost hh).mpr (.inl ⟨hm, fun heq => ?_⟩)
    have hlaunch : h.launchId = hello.launchId :=
      (hs.launched h hm).trans (heq.trans (hs.registered_id hl hid))
    -- the launch names the Host, so it is its row that is asked
    obtain ⟨hne', l', hl', hlid', hname⟩ := hs.enrolled h hm
    obtain rfl := Table.eq_of_key hl hl' (by rw [hid, ← hlaunch, hs.launched h hm, hlid'])
    simp only [State.mayRegister, hname, Option.getD_some, if_neg hne', bind_ok_iff, expect_ok,
      require_ok] at hmay
    obtain ⟨k, hk, hmay⟩ := hmay
    obtain ⟨hkm, hkid⟩ := Table.find?_eq_some.mp hk
    obtain rfl := Table.eq_of_key hkm hm hkid
    rcases hmay with ⟨hpid, hbirth⟩ | hidle | hauth
    · exact hop ⟨hlaunch.symm, hpid.symm, hbirth.symm⟩
    · exact hact hidle
    · rw [hrec] at hauth
      cases hauth
  | authorize => exact hrest _ _ _ (by simp [RuntimeHost.offlineAs, hrec])
  | @reconcile hostId =>
    refine Table.mem_update.mpr ⟨h, hm, ?_⟩
    by_cases hid : h.id = hostId
    · rw [Table.patch_pos (by simpa using hid), ← hrec]
    · rw [Table.patch_neg (by simpa using hid)]
  | ready => exact hrest _ _ _ (by simpa [hrec] using Ne.symm hop)
  | offline => exact hrest _ _ _ (by simp [RuntimeHost.readyIn, hrec])
  | retire => exact hrest _ _ _ (by simp [hrec])
  | rebind => exact hrest _ _ _ hop

/-! ## Released Hosts -/

def ReleasedIdle (s : State) : Prop :=
  ∀ h ∈ s.hosts, h.status = .released → s.hostActive h.id = 0

theorem Enlists.released (he : Enlists d s op hosts launches) (hm : h ∈ hosts)
    (hrel : h.status = .released) :
    (∃ k ∈ s.hosts, k.id = h.id ∧ k.status = .released) ∨
      op = .retireHost h.id ∧ ∃ k ∈ s.hosts, k.id = h.id ∧ k.status = .ready := by
  have hkept : ∀ (p : RuntimeHost → Bool) (f : RuntimeHost → RuntimeHost)
      (hf : ∀ k, (f k).id = k.id), (∀ k, (f k).status ≠ .released) →
      h ∈ s.hosts.update p f hf → ∃ k ∈ s.hosts, k.id = h.id ∧ k.status = .released := by
    intro p f hf hne hm
    obtain ⟨k, hk, rfl⟩ := Table.mem_update.mp hm
    by_cases hp : p k = true
    · rw [Table.patch_pos hp] at hrel
      exact absurd hrel (hne k)
    · rw [Table.patch_neg (by simpa using hp)] at hrel ⊢
      exact ⟨k, hk, rfl, hrel⟩
  cases he with
  | none => exact .inl ⟨h, hm, rfl, hrel⟩
  | plan => exact .inl ⟨h, hm, rfl, hrel⟩
  | register _ _ _ _ hh =>
    rcases (mem_upsertHost hh).mp hm with ⟨hm, -⟩ | ⟨k, -, -, rfl⟩ | ⟨rfl, -⟩
    · exact .inl ⟨h, hm, rfl, hrel⟩
    · cases hrel
    · cases hrel
  | @retire hostId =>
    obtain ⟨k, hk, rfl⟩ := (Table.mem_update (h := by intro _; rfl)).mp hm
    by_cases hp : k.id = hostId ∧ k.status = .ready
    · rw [Table.patch_pos (by simpa using hp)]
      exact .inr ⟨congrArg Op.retireHost hp.1.symm, k, hk, rfl, hp.2⟩
    · rw [Table.patch_neg (by simpa using hp)] at hrel ⊢
      exact .inl ⟨k, hk, rfl, hrel⟩
  | _ => exact .inl (hkept _ _ _ (fun _ h => by cases h) hm)

/-- An active segment of a Host was active before, or has been claimed for the Host while it was
ready. -/
theorem active_host (hb : Bound s) (hx : d.exec s op = .ok s') {g' : Segment}
    (hg : g' ∈ s'.segments) (ha : g'.active = true) :
    (∃ g ∈ s.segments, g.hostId = g'.hostId ∧ g.active = true) ∨
      ∃ h ∈ s.hosts, h.id = g'.hostId ∧ h.status = .ready := by
  obtain ⟨g, hg₀, hst, ha₀⟩ | ⟨⟨env, hostId, epoch, slots, rfl⟩, hnew⟩ :=
    (exec_effect hb hx).step.active_of hg ha
  · exact .inl ⟨g, hg₀, (congrArg Segment.hostId hst :).symm, ha₀⟩
  · obtain ⟨cmd, hclaim⟩ := committed_ok.mp hx
    obtain ⟨t, place, hc⟩ := claimReady_iff.mp hclaim
    obtain ⟨h, hh, hready, -, -⟩ := hc.host
    obtain ⟨hm, hid⟩ := Table.find?_eq_some.mp hh
    obtain ⟨c₁, c₂, caps, hattempt, hsegment, -, rfl, -⟩ := launch_cases hc.launched
    obtain ⟨-, -, -, hsegs⟩ := startAttempt_frame hattempt
    obtain ⟨segments, hi, rfl⟩ := startSegment_cases hsegment
    rw [hsegs] at hi
    rcases (Table.mem_insert hi).mp hg with hg | rfl
    · exact absurd rfl (hnew _ hg)
    · exact .inr ⟨h, hm, hid, hready⟩

/-- Retirements of Hosts without active segments keep it so. -/
theorem ReleasedIdle.exec (hi : ReleasedIdle s) (hb : Bound s) (hx : d.exec s op = .ok s')
    (hretire : ∀ hostId, op = .retireHost hostId → ∀ h ∈ s.hosts, h.id = hostId →
      h.status = .ready → s.hostActive hostId = 0) : ReleasedIdle s' := by
  intro k hk hrel
  have hold : s.hostActive k.id = 0 ∧ ∀ h ∈ s.hosts, h.id = k.id → h.status = .ready →
      op = .retireHost k.id := by
    rcases (exec_enlists hx).released hk hrel with ⟨h, hm, hid, hst⟩ | ⟨rfl, h, hm, hid, hst⟩
    · refine ⟨hid ▸ hi h hm hst, fun h' hm' hid' hst' => ?_⟩
      obtain rfl := Table.eq_of_key hm hm' (hid.trans hid'.symm)
      rw [hst] at hst'
      cases hst'
    · exact ⟨hretire _ rfl h hm hid hst, fun _ _ _ _ => rfl⟩
  refine Nat.eq_zero_of_not_pos fun hpos => ?_
  obtain ⟨g', hg', hact⟩ := Table.count_pos.mp hpos
  simp only [Bool.and_eq_true, decide_eq_true_eq] at hact
  rcases active_host hb hx hg' hact.2 with ⟨g, hg, hhost, ha⟩ | ⟨h, hm, hid, hst⟩
  · have hpos₀ : 0 < s.hostActive k.id := Table.count_pos.mpr ⟨g, hg, by
      simp only [Bool.and_eq_true, decide_eq_true_eq]
      exact ⟨hhost.trans hact.1, ha⟩⟩
    omega
  · -- a retirement claims nothing
    obtain rfl := hold.2 h hm (hid.trans hact.1) hst
    cases hx
    have hpos₀ : 0 < s.hostActive k.id := hpos
    omega

end Rejoin
end Orchestrator.Store
