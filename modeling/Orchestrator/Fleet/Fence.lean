import Orchestrator.Fleet.Moves

/-!
# A Host that is replaced while work is active

A registration may put another process in the place of a Host with active
segments only under an authorization, which names the process replaced. The
authorization is a status of the Host's row: every other rewrite of that status
takes it back.
-/
namespace Orchestrator.Store
open Library

/-- An accepted registration of the Host, a reconcile of it, or a new epoch. -/
def DB.Disturbs (d : DB) (s : State) (hostId : String) : Op → Prop
  | .registerHost hello epoch => ∃ s', d.registerHost s hello epoch = .ok (s', hostId)
  | .beginHostReconcile id => id = hostId
  | .finishHostReconcile id => id = hostId ∧ ∃ h ∈ s.hosts, h.id = hostId ∧ h.status = .reconciling
  | .beginCoordinatorEpoch epoch => (d.exec s (.beginCoordinatorEpoch epoch)).isOk = true
  | _ => False

/-- The process of `h` was authorized to be replaced while `h` was offline, and
since then nothing has registered or reconciled it, and no epoch begun. -/
def DB.Authorized (d : DB) (s : State) (ops : List Op) (h : RuntimeHost) : Prop :=
  ∃ earlier later, ops = earlier ++ .authorizeHostRebind h.launchId h.pid h.birth :: later ∧
    (d.exec (d.run s earlier) (.authorizeHostRebind h.launchId h.pid h.birth)).isOk = true ∧
    { h with status := .offline } ∈ (d.run s earlier).hosts ∧
    ∀ mid op rest, later = mid ++ op :: rest → ¬ d.Disturbs (d.run s
      (earlier ++ .authorizeHostRebind h.launchId h.pid h.birth :: mid)) h.id op

/-- Every Host registered under the launch that names it. -/
def Enrolled (hosts : Table RuntimeHost.id) (launches : Table HostLaunch.id) : Prop :=
  ∀ h ∈ hosts, h.id ≠ "" ∧ ∃ l ∈ launches, l.id = h.id ∧ l.hostId = some h.id

section Fence
variable {d : DB} {s s' : State} {op : Op} {h : RuntimeHost}

theorem registerHost_ready {hello : HostHello} {epoch : Nat} {hostId : String}
    (hx : d.registerHost s hello epoch = .ok (s', hostId)) (hm : h ∈ s'.hosts)
    (hid : h.id = hostId) : h.status = .ready := by
  simp only [DB.registerHost, bind_ok_iff, require_ok, expect_ok, exists_const, Except.ok.injEq,
    Prod.mk.injEq] at hx
  obtain ⟨-, l, -, -, run, -, -, _, -, hosts, hu, rfl, rfl⟩ := hx
  rcases (mem_upsertHost hu).mp hm with ⟨-, hne⟩ | ⟨k, -, -, rfl⟩ | ⟨rfl, -⟩
  · exact absurd hid hne
  · rfl
  · rfl

/-- What an update leaves authorized, it had not selected, if it sets another status. -/
theorem unselected {p : RuntimeHost → Bool} {f : RuntimeHost → RuntimeHost}
    {hf : ∀ h, (f h).id = h.id} (hst : ∀ h, (f h).status ≠ .reconcileAuthorized)
    (hm : h ∈ s.hosts.update p f hf) (ha : h.status = .reconcileAuthorized) :
    h ∈ s.hosts ∧ p h = false := by
  obtain ⟨k, hk, rfl⟩ := Table.mem_update.mp hm
  by_cases hp : p k = true
  · rw [Table.patch_pos hp] at ha
    exact absurd ha (hst k)
  · have hneg : p k = false := by simpa using hp
    rw [Table.patch_neg hneg]
    exact ⟨hk, hneg⟩

/-- A Host is authorized by the step that names its process, offline until then,
or was authorized before a step that does not disturb it. -/
theorem exec_authorized (hx : d.exec s op = .ok s') (hm : h ∈ s'.hosts)
    (ha : h.status = .reconcileAuthorized) :
    (op = .authorizeHostRebind h.launchId h.pid h.birth ∧ { h with status := .offline } ∈ s.hosts) ∨
      (h ∈ s.hosts ∧ ¬ d.Disturbs s h.id op) := by
  have he := exec_enlists hx
  generalize hhosts : s'.hosts = hosts at he
  generalize s'.hostLaunches = launches at he
  rw [hhosts] at hm
  cases he with
  | none hop =>
    refine .inr ⟨hm, ?_⟩
    rcases hop with hop | ⟨spec, rfl, -⟩
    · cases op <;> first | exact id | cases hop
    · exact id
  | plan => exact .inr ⟨hm, id⟩
  | epoch => cases (unselected (by simp) hm ha).2
  | @register hello epoch l hosts hl hid hne hmay hh =>
    rcases (mem_upsertHost hh).mp hm with ⟨hm₀, -⟩ | ⟨k, -, -, rfl⟩ | ⟨rfl, -⟩
    · refine .inr ⟨hm₀, ?_⟩
      rintro ⟨s'', hs''⟩
      obtain ⟨hostId, hreg⟩ := committed_ok.mp hx
      obtain ⟨rfl, rfl⟩ := Prod.mk.inj (Except.ok.inj (hreg.symm.trans hs''))
      rw [registerHost_ready hreg (hhosts ▸ hm) rfl] at ha
      cases ha
    · cases ha
    · cases ha
  | @authorize launchId pid birth hone =>
    obtain ⟨k, hk, rfl⟩ := (Table.mem_update (h := by intro _; rfl)).mp hm
    by_cases hp : k.offlineAs launchId pid birth = true
    · rw [Table.patch_pos (p := fun h : RuntimeHost => h.offlineAs launchId pid birth) hp]
      simp only [RuntimeHost.offlineAs, Bool.and_eq_true, decide_eq_true_eq] at hp
      obtain ⟨⟨⟨rfl, rfl⟩, rfl⟩, hoff⟩ := hp
      refine .inl ⟨rfl, ?_⟩
      have hsame : { k with status := HostStatus.offline } = k := by rw [← hoff]
      exact hsame ▸ hk
    · rw [Table.patch_neg (p := fun h : RuntimeHost => h.offlineAs launchId pid birth)
        (by simpa using hp)]
      exact .inr ⟨hk, id⟩
  | @reconcile hostId =>
    obtain ⟨hm₀, hp⟩ := unselected (by simp) hm ha
    exact .inr ⟨hm₀, fun heq => of_decide_eq_false hp heq.symm⟩
  | @ready hostId =>
    obtain ⟨hm₀, -⟩ := unselected (by simp) hm ha
    refine .inr ⟨hm₀, ?_⟩
    rintro ⟨-, k, hk, hid, hst⟩
    obtain rfl := Table.eq_of_key hk hm₀ hid
    rw [hst] at ha
    cases ha
  | offline => exact .inr ⟨(unselected (by simp) hm ha).1, id⟩
  | retire => exact .inr ⟨(unselected (by simp) hm ha).1, id⟩
  | rebind => exact .inr ⟨(unselected (by simp) hm ha).1, id⟩

theorem disturbs_isOk {hostId : String} (hd : d.Disturbs s hostId op) :
    (d.exec s op).isOk = true := by
  cases op <;> simp only [DB.Disturbs] at hd
  case registerHost hello epoch =>
    obtain ⟨s', hs'⟩ := hd
    rw [DB.exec, hs']
    rfl
  case beginCoordinatorEpoch => exact hd
  all_goals rfl

/-! ## The history of an authorization -/

theorem DB.Authorized.extend {s₀ : State} {ops : List Op} (ha : d.Authorized s₀ ops h)
    (hn : ¬ d.Disturbs (d.run s₀ ops) h.id op) : d.Authorized s₀ (ops ++ [op]) h := by
  obtain ⟨earlier, later, rfl, hok, hoff, hquiet⟩ := ha
  refine ⟨earlier, later ++ [op], by simp, hok, hoff, fun mid op' rest hsplit => ?_⟩
  rcases List.eq_nil_or_concat rest with rfl | ⟨rest, last, rfl⟩
  · obtain ⟨rfl, hop⟩ := List.append_inj' hsplit rfl
    obtain rfl := List.singleton_inj.mp hop
    exact hn
  · rw [List.concat_eq_append, ← List.cons_append, ← List.append_assoc] at hsplit
    exact hquiet mid op' rest (List.append_inj' hsplit rfl).1

theorem DB.Authorized.here {s₀ : State} {ops : List Op}
    (hok : (d.exec (d.run s₀ ops) (.authorizeHostRebind h.launchId h.pid h.birth)).isOk = true)
    (hoff : { h with status := .offline } ∈ (d.run s₀ ops).hosts) :
    d.Authorized s₀ (ops ++ [Op.authorizeHostRebind h.launchId h.pid h.birth]) h :=
  ⟨ops, [], rfl, hok, hoff, fun mid op rest hsplit => by simp at hsplit⟩

/-- A Host that is authorized has a history that says so. -/
theorem authorized_run (d : DB) (limits : ConcurrencyLimits) (ops : List Op) :
    ∀ h ∈ (d.run (State.fresh limits) ops).hosts, h.status = .reconcileAuthorized →
      d.Authorized (State.fresh limits) ops h := by
  induction ops using List.reverseRecOn with
  | nil => exact fun _ h => (nomatch h)
  | append_singleton ops op ih =>
    intro h hm ha
    rw [DB.run, run_concat] at hm
    cases hx : d.exec (d.run (State.fresh limits) ops) op with
    | ok s' =>
      have hstep : d.step (d.run (State.fresh limits) ops) op = s' := step_of_exec hx
      have hm' : h ∈ s'.hosts := hstep ▸ hm
      rcases exec_authorized hx hm' ha with ⟨rfl, hoff⟩ | ⟨hm₀, hn⟩
      · exact .here (by rw [hx]; rfl) hoff
      · exact (ih h hm₀ ha).extend hn
    | error e =>
      have hstep : d.step (d.run (State.fresh limits) ops) op = d.run (State.fresh limits) ops :=
        step_of_error hx
      refine (ih h (hstep ▸ hm) ha).extend fun hd => ?_
      have hok := disturbs_isOk hd
      rw [hx] at hok
      cases hok

/-! ## Launches and their Hosts -/

theorem registeredId_named {hello : HostHello} {l : HostLaunch} {id : String} (hne : id ≠ "")
    (h : l.hostId = some id) : registeredId hello l = id := by
  rw [registeredId, h, Option.getD_some, if_neg hne]

/-- A launch that names its Host goes on naming it. -/
theorem Enlists.named {hosts : Table RuntimeHost.id} {launches : Table HostLaunch.id}
    (he : Enlists d s op hosts launches) {l : HostLaunch} (hl : l ∈ s.hostLaunches)
    (hne : l.id ≠ "") (hname : l.hostId = some l.id) :
    ∃ k ∈ launches, k.id = l.id ∧ k.hostId = some l.id := by
  have hkept : ∀ (p : HostLaunch → Bool) (f : HostLaunch → HostLaunch)
      (hf : ∀ k, (f k).id = k.id), (∀ k, (f k).hostId = k.hostId) →
      ∃ k ∈ s.hostLaunches.update p f hf, k.id = l.id ∧ k.hostId = some l.id :=
    fun p f hf hh => ⟨_, Table.patch_mem_update hl, Table.patch_field HostLaunch.id hf l,
      (Table.patch_field HostLaunch.hostId hh l).trans hname⟩
  cases he with
  | none => exact ⟨l, hl, rfl, hname⟩
  | plan _ _ hi => exact ⟨l, (Table.mem_insert hi).mpr (.inl hl), rfl, hname⟩
  | epoch => exact hkept _ _ _ fun _ => rfl
  | @register hello epoch l' hosts hl' hid hlaunch hmay hh =>
    by_cases hsame : l.id = hello.launchId
    · obtain rfl := Table.eq_of_key hl' hl (hid.trans hsame.symm)
      refine ⟨_, Table.patch_mem_update (h := by intro _; rfl) hl, ?_⟩
      rw [Table.patch_pos (by simpa using hsame)]
      exact ⟨rfl, congrArg some (registeredId_named hne hname)⟩
    · exact ⟨l, Table.mem_update_of_not (h := by intro _; rfl) hl (by simpa using hsame), rfl,
        hname⟩
  | authorize => exact ⟨l, hl, rfl, hname⟩
  | reconcile => exact hkept _ _ _ fun _ => rfl
  | ready => exact hkept _ _ _ fun _ => rfl
  | offline =>
    split
    · exact hkept _ _ _ fun _ => rfl
    · exact ⟨l, hl, rfl, hname⟩
  | retire => exact hkept _ _ _ fun _ => rfl
  | rebind => exact hkept _ _ _ fun _ => rfl

/-- A Host has registered before, or registers now, under its launch. -/
theorem Enlists.host_cases {hosts : Table RuntimeHost.id} {launches : Table HostLaunch.id}
    (he : Enlists d s op hosts launches) (hm : h ∈ hosts) :
    (∃ k ∈ s.hosts, k.id = h.id) ∨
      h.id ≠ "" ∧ ∃ l ∈ launches, l.id = h.id ∧ l.hostId = some h.id := by
  have hkept : ∀ (p : RuntimeHost → Bool) (f : RuntimeHost → RuntimeHost)
      (hf : ∀ k, (f k).id = k.id), h ∈ s.hosts.update p f hf → ∃ k ∈ s.hosts, k.id = h.id := by
    intro p f hf hm
    obtain ⟨k, hk, rfl⟩ := Table.mem_update.mp hm
    exact ⟨k, hk, (Table.patch_field RuntimeHost.id hf k).symm⟩
  cases he with
  | none => exact .inl ⟨h, hm, rfl⟩
  | plan => exact .inl ⟨h, hm, rfl⟩
  | @register hello epoch l hosts hl hid hlaunch hmay hh =>
    rcases (mem_upsertHost hh).mp hm with ⟨hm₀, -⟩ | ⟨k, hk, -, rfl⟩ | ⟨hreg, -⟩
    · exact .inl ⟨h, hm₀, rfl⟩
    · exact .inl ⟨k, hk, rfl⟩
    · have hreg : h.id = registeredId hello l := congrArg RuntimeHost.id hreg
      by_cases hex : l.hostId.getD "" = ""
      · -- a first registration takes the id of the launch
        rw [registeredId, if_pos hex] at hreg
        refine .inr ⟨hreg ▸ hlaunch, _, Table.patch_mem_update (h := by intro _; rfl) hl, ?_⟩
        rw [Table.patch_pos (by simpa using hid), hreg, registeredId, if_pos hex]
        exact ⟨hid, rfl⟩
      · simp only [State.mayRegister, if_neg hex, bind_ok_iff, expect_ok] at hmay
        obtain ⟨k, hk, -⟩ := hmay
        obtain ⟨hkm, hkid⟩ := Table.find?_eq_some.mp hk
        rw [registeredId, if_neg hex] at hreg
        exact .inl ⟨k, hkm, hkid.trans hreg.symm⟩
  | _ => exact .inl (hkept _ _ _ hm)

theorem Enlists.enrolled {hosts : Table RuntimeHost.id} {launches : Table HostLaunch.id}
    (he : Enlists d s op hosts launches) (henr : Enrolled s.hosts s.hostLaunches) :
    Enrolled hosts launches := by
  intro h hm
  rcases he.host_cases hm with ⟨k, hk, hid⟩ | hreg
  · obtain ⟨hne, l, hl, hlid, hname⟩ := henr k hk
    obtain ⟨l', hl', hlid', hname'⟩ := he.named hl (hlid ▸ hne) (hlid ▸ hname)
    rw [← hid, ← hlid]
    exact ⟨hlid ▸ hne, l', hl', hlid', hname'⟩
  · exact hreg

theorem enrolled_of_reachable {limits : ConcurrencyLimits} (hr : d.Reachable limits s) :
    Enrolled s.hosts s.hostLaunches :=
  reachable_induct (P := fun s => Enrolled s.hosts s.hostLaunches) (fun _ h => (nomatch h))
    (fun _ _ _ hs hx => (exec_enlists hx).enrolled hs) hr

/-! ## Replacement -/

/-- A process takes the place of another, while the Host has active segments,
only under an authorization that names the one replaced. -/
theorem replacement_authorized (d : DB) (limits : ConcurrencyLimits) (before : List Op)
    {hello : HostHello} {epoch : Nat}
    (hx : d.registerHost (d.run (State.fresh limits) before) hello epoch = .ok (s', h.id))
    (hm : h ∈ (d.run (State.fresh limits) before).hosts)
    (hactive : 0 < (d.run (State.fresh limits) before).hostActive h.id)
    (hchange : ¬ (h.pid = hello.pid ∧ h.birth = hello.birth)) :
    d.Authorized (State.fresh limits) before h := by
  have henr := enrolled_of_reachable (⟨before, rfl⟩ : d.Reachable limits _)
  refine authorized_run d limits before h hm ?_
  obtain ⟨hne, l, hl, hlid, hname⟩ := henr h hm
  simp only [DB.registerHost, bind_ok_iff, require_ok, expect_ok, exists_const, Except.ok.injEq,
    Prod.mk.injEq] at hx
  obtain ⟨-, l', hfind, -, run, -, -, _, hmay, hosts, -, -, hreg⟩ := hx
  obtain ⟨hl', hlid'⟩ := Table.find?_eq_some.mp hfind
  have hex : l'.hostId.getD "" = h.id := by
    split at hreg
    · obtain rfl := Table.eq_of_key hl hl' ((hlid.trans hreg.symm).trans hlid'.symm)
      rw [hname, Option.getD_some]
    · exact hreg
  simp only [State.mayRegister, hex, if_neg hne, bind_ok_iff, expect_ok, require_ok] at hmay
  obtain ⟨k, hk, hmay⟩ := hmay
  obtain ⟨hkm, hkid⟩ := Table.find?_eq_some.mp hk
  obtain rfl := Table.eq_of_key hkm hm hkid
  rcases hmay with hsame | hidle | ha
  · exact absurd hsame hchange
  · omega
  · exact ha

end Fence

/-- The Host of `a` goes offline, is authorized, and another process registers. -/
def replacedOps : List Op :=
  toyStart [toyTask "a" 1 []] ++ [toyClaim 11, .markHostOffline "host" 1,
    .authorizeHostRebind "host" 2 "birth"]

theorem toy_replacement_authorized : ∃ h ∈ (toyDB.run (State.fresh {}) replacedOps).hosts,
    toyDB.Authorized (State.fresh {}) replacedOps h := by
  have hfacts : ∃ h ∈ (toyDB.run (State.fresh {}) replacedOps).hosts.rows,
      0 < (toyDB.run (State.fresh {}) replacedOps).hostActive h.id ∧ h.pid = 2 ∧
      ∃ r ∈ (toyDB.registerHost (toyDB.run (State.fresh {}) replacedOps)
        { toyHello with pid := 3 } 1).toOption, r.2 = h.id := by
    decide +kernel
  obtain ⟨h, hm, hactive, hpid, ⟨s', hostId⟩, hr, rfl⟩ := hfacts
  refine ⟨h, Table.mem_def.mpr hm, replacement_authorized toyDB {} replacedOps
    (toOption_eq_some.mp hr) (Table.mem_def.mpr hm) hactive fun hsame => ?_⟩
  rw [hpid] at hsame
  exact absurd hsame.1 (by decide)

end Orchestrator.Store
