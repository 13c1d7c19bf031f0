import Orchestrator.Dispatch.Numbers
import Orchestrator.Fleet.Moves

/-!
# Owner rebinds

A rebind that succeeds has taken effect, unless it repeats one that is on record: a repetition is
recognised by its generation and its proof, and changes nothing.
-/
namespace Orchestrator.Store
open Library

/-! ## What a rebind binds -/

/-- The launches of the run and their Hosts are of the generation. -/
structure State.AtGeneration (s : State) (runId generation : String) : Prop where
  launches : ∀ l ∈ s.hostLaunches, s.ownsLaunch runId l.id = true → l.hostGeneration = generation
  hosts : ∀ h ∈ s.hosts, s.ownsLaunch runId h.launchId = true → h.hostGeneration = generation

/-- The run has the owner. -/
def State.OwnedBy (s : State) (runId : String) (pid : Int) (birth : String) : Prop :=
  ∃ run ∈ s.runs, run.id = runId ∧ run.originPid = pid ∧ run.originBirth = birth

structure State.BoundTo (s : State) (spec : RebindOwnerSpec) : Prop where
  owner : s.OwnedBy spec.runId spec.originPid spec.originBirth
  generation : s.AtGeneration spec.runId spec.hostGeneration

/-- The last rebind of the run. -/
def State.lastRebind (s : State) (runId : String) : Option OwnerRebind :=
  (s.ownerRebinds.rows.filter fun r => r.runId = runId).getLast?

/-- The request passes the checks that come before the search for its generation. -/
def State.MayRebind (s : State) (spec : RebindOwnerSpec) : Prop :=
  (spec.runId ≠ "" ∧ spec.originContextId ≠ "" ∧ 0 < spec.originPid ∧ spec.originBirth ≠ "" ∧
    spec.hostGeneration ≠ "" ∧ validDigest spec.attachmentProofSha256 = true) ∧
  (∃ run ∈ s.runs, run.id = spec.runId ∧ run.originContextId = spec.originContextId) ∧
  (s.runGeneration spec.runId).isSome = true

/-- A rebind on record with the generation and the proof of the request is the last one of the run,
and of the same owner. -/
def DB.RepeatsLast (d : DB) (s : State) (spec : RebindOwnerSpec) : Prop :=
  s.MayRebind spec → ∀ row ∈ s.ownerRebinds, row.runId = spec.runId →
    row.hostGeneration = spec.hostGeneration →
    row.attachmentProofSha256 = d.toLower spec.attachmentProofSha256 →
      s.lastRebind spec.runId = some row ∧ row.originPid = spec.originPid ∧
        row.originBirth = spec.originBirth

/-! ## What the other operations leave -/

section
variable {d : DB} {limits : ConcurrencyLimits} {op : Op} {s s' : State} {runId generation : String}
  {spec : RebindOwnerSpec} {row : OwnerRebind}

/-- What an operation leaves of runs and rebinds, if it does neither admit a run nor rebind one. -/
theorem exec_owners (hx : d.exec s op = .ok s') (hplan : ∀ env p, op ≠ .submitPlan env p)
    (hrebind : ∀ spec, op ≠ .rebindOwner spec) :
    s'.runs = s.runs ∧ s'.ownerRebinds = s.ownerRebinds := by
  by_cases hop : op.fleet = true
  · cases op <;> simp only [Op.fleet, Bool.false_eq_true] at hop <;>
      simp only [DB.exec, committed_ok] at hx <;> obtain ⟨r, h⟩ := hx
    case beginCoordinatorEpoch =>
      simp only [beginCoordinatorEpoch, bind_ok_iff, require_ok, exists_const, Except.ok.injEq,
        Prod.mk.injEq] at h
      obtain ⟨-, rfl, -⟩ := h
      exact ⟨rfl, rfl⟩
    case registerHost =>
      simp only [DB.registerHost, bind_ok_iff, require_ok, expect_ok, exists_const, Except.ok.injEq,
        Prod.mk.injEq] at h
      obtain ⟨-, l, -, -, run, -, -, _, -, hosts, -, rfl, -⟩ := h
      exact ⟨rfl, rfl⟩
    case authorizeHostRebind =>
      simp only [authorizeHostRebind, bind_ok_iff, require_ok, exists_const, Except.ok.injEq,
        Prod.mk.injEq] at h
      obtain ⟨-, rfl, -⟩ := h
      exact ⟨rfl, rfl⟩
    case rebindOwner => exact absurd rfl (hrebind _)
    case beginHostReconcile => cases h; exact ⟨rfl, rfl⟩
    case finishHostReconcile => cases h; exact ⟨rfl, rfl⟩
    case markHostOffline => cases h; exact ⟨rfl, rfl⟩
    case retireHost => cases h; exact ⟨rfl, rfl⟩
  · cases exec_writes hx with
    | plan => exact absurd rfl (hplan _ _)
    | fleet h => exact absurd h hop
    | claim h =>
      obtain ⟨c₁, c₂, caps, -, -, -, rfl, -⟩ := launch_cases h.launched
      exact ⟨rfl, rfl⟩
    | report _ _ _ _ _ h₁ h₂ =>
      obtain ⟨row, events, order, usage, -, -, -, rfl⟩ := appendReport_frame h₁
      obtain ⟨core, questions, stops, rfl⟩ := askReported_frame h₂
      exact ⟨rfl, rfl⟩
    | event _ _ _ _ _ h₁ h₂ =>
      obtain ⟨events, order, usage, rfl⟩ := appendEvent_frame h₁
      obtain ⟨core, reports, order, questions, sessions, stops, rfl⟩ := applyEvent_frame h₂
      exact ⟨rfl, rfl⟩
    | _ => exact ⟨rfl, rfl⟩

/-- An operation that admits no run gives no run a launch. -/
theorem exec_owns (hb : Bound s) (hx : d.exec s op = .ok s')
    (hplan : ∀ env p, op ≠ .submitPlan env p) {launchId : String}
    (ho : s'.ownsLaunch runId launchId = true) : s.ownsLaunch runId launchId = true := by
  cases (exec_effect hb hx).step with
  | submit _ _ hop =>
    obtain ⟨env, p, rfl⟩ := hop
    exact absurd rfl (hplan env p)
  | move hm =>
    obtain ⟨t', ht', howns⟩ := List.any_eq_true.mp ho
    obtain ⟨t, ht, hst⟩ := mem_of_map_eq hm.kept.sameTasks ht'
    refine List.any_eq_true.mpr ⟨t, ht, ?_⟩
    have hstatic := hst.2
    rwa [← Task.static_runId hstatic, ← Task.static_hostLaunchId hstatic]

/-- What an operation leaves of a launch, if it does neither admit a run nor rebind one. -/
theorem exec_launches (hx : d.exec s op = .ok s') (hplan : ∀ env p, op ≠ .submitPlan env p)
    (hrebind : ∀ spec, op ≠ .rebindOwner spec) {l' : HostLaunch} (hl' : l' ∈ s'.hostLaunches) :
    ∃ l ∈ s.hostLaunches, l' = { l with status := l'.status, hostId := l'.hostId } := by
  have hkept : ∀ (p : HostLaunch → Bool) (f : HostLaunch → HostLaunch)
      (hf : ∀ k, (f k).id = k.id), l' ∈ s.hostLaunches.update p f hf →
      (∀ k, f k = { k with status := (f k).status, hostId := (f k).hostId }) →
      ∃ l ∈ s.hostLaunches, l' = { l with status := l'.status, hostId := l'.hostId } := by
    intro p f hf hm hsame
    obtain ⟨l, hl, rfl⟩ := Table.mem_update.mp hm
    refine ⟨l, hl, ?_⟩
    by_cases hp : p l = true
    · rw [Table.patch_pos hp]
      exact hsame l
    · rw [Table.patch_neg (by simpa using hp)]
  have he := exec_enlists hx
  generalize s'.hosts = hosts at he
  generalize s'.hostLaunches = launches at he hl'
  cases he with
  | none => exact ⟨l', hl', rfl⟩
  | plan => exact absurd rfl (hplan _ _)
  | authorize => exact ⟨l', hl', rfl⟩
  | offline =>
    split at hl'
    · exact hkept _ _ _ hl' fun _ => rfl
    · exact ⟨l', hl', rfl⟩
  | rebind => exact absurd rfl (hrebind _)
  | _ => exact hkept _ _ _ hl' fun _ => rfl

/-- A Host registers with the generation of its launch. -/
theorem registerHost_generation {hello : HostHello} {epoch : Nat}
    (hx : d.exec s (.registerHost hello epoch) = .ok s') {l : HostLaunch} (hl : l ∈ s.hostLaunches)
    (hid : l.id = hello.launchId) : l.hostGeneration = hello.hostGeneration := by
  obtain ⟨r, h⟩ := committed_ok.mp hx
  simp only [DB.registerHost, bind_ok_iff, require_ok, expect_ok, exists_const] at h
  obtain ⟨-, k, hk, ⟨-, -, hgeneration, -⟩, -⟩ := h
  obtain ⟨hkm, hkid⟩ := Table.find?_eq_some.mp hk
  obtain rfl : l = k := Table.eq_of_key hl hkm (hid.trans hkid.symm)
  exact hgeneration

/-- A Host has the generation it had, or that of its launch. -/
theorem exec_hosts (hx : d.exec s op = .ok s') (hrebind : ∀ spec, op ≠ .rebindOwner spec)
    {h' : RuntimeHost} (hh' : h' ∈ s'.hosts) :
    (∃ h ∈ s.hosts, h.launchId = h'.launchId ∧ h.hostGeneration = h'.hostGeneration) ∨
      ∃ l ∈ s.hostLaunches, l.id = h'.launchId ∧ l.hostGeneration = h'.hostGeneration := by
  have hkept : ∀ (p : RuntimeHost → Bool) (f : RuntimeHost → RuntimeHost)
      (hf : ∀ k, (f k).id = k.id), h' ∈ s.hosts.update p f hf →
      (∀ k, (f k).launchId = k.launchId) → (∀ k, (f k).hostGeneration = k.hostGeneration) →
      ∃ h ∈ s.hosts, h.launchId = h'.launchId ∧ h.hostGeneration = h'.hostGeneration := by
    intro p f hf hm hl hg
    obtain ⟨h, hh, rfl⟩ := Table.mem_update.mp hm
    exact ⟨h, hh, (Table.patch_field RuntimeHost.launchId hl h).symm,
      (Table.patch_field RuntimeHost.hostGeneration hg h).symm⟩
  have he := exec_enlists hx
  generalize s'.hosts = hosts at he hh'
  generalize s'.hostLaunches = launches at he
  cases he with
  | none => exact .inl ⟨h', hh', rfl, rfl⟩
  | plan => exact .inl ⟨h', hh', rfl, rfl⟩
  | @register hello epoch l hosts hl hid hne hmay hh =>
    rcases (mem_upsertHost hh).mp hh' with ⟨hold, -⟩ | ⟨k, hk, -, rfl⟩ | ⟨rfl, -⟩
    · exact .inl ⟨h', hold, rfl, rfl⟩
    · exact .inl ⟨k, hk, rfl, rfl⟩
    · exact .inr ⟨l, hl, hid, registerHost_generation hx hl hid⟩
  | rebind => exact absurd rfl (hrebind _)
  | _ => exact .inl (hkept _ _ _ hh' (fun _ => rfl) fun _ => rfl)

theorem State.AtGeneration.exec (h : s.AtGeneration runId generation) (hb : Bound s)
    (hx : d.exec s op = .ok s') (hplan : ∀ env p, op ≠ .submitPlan env p)
    (hrebind : ∀ spec, op ≠ .rebindOwner spec) : s'.AtGeneration runId generation where
  launches := fun l' hl' ho => by
    obtain ⟨l, hl, heq⟩ := exec_launches hx hplan hrebind hl'
    rw [heq] at ho ⊢
    exact h.launches l hl (exec_owns hb hx hplan ho)
  hosts := fun h' hh' ho => by
    have hs := exec_owns hb hx hplan ho
    rcases exec_hosts hx hrebind hh' with ⟨k, hk, hl, hg⟩ | ⟨l, hl, hid, hg⟩
    · exact hg ▸ h.hosts k hk (hl ▸ hs)
    · exact hg ▸ h.launches l hl (hid ▸ hs)

/-! ## Admissions -/

/-- A run that is admitted leaves the launches of the others alone. -/
theorem submitPlan_generation {env : Env} {p : PlanSpec} {receipt : SubmitReceipt}
    (h : s.AtGeneration runId generation) (hb : Bound s)
    (hx : d.submitPlan env s p = .ok (s', receipt)) (hne : runId ≠ p.run.id) :
    s'.AtGeneration runId generation := by
  simp only [DB.submitPlan, bind_ok_iff, require_ok, expect_ok, exists_const, Except.ok.injEq,
    Prod.mk.injEq] at hx
  obtain ⟨mode, -, _, hvalid, -, runs, -, launches, hl, core, hcore, rfl, -⟩ := hx
  generalize (if p.launchId = "" then env.newId "host-launch" else p.launchId) = launchId
    at hl hcore
  have howns : ∀ id, core.ownsLaunch runId id = true → s.ownsLaunch runId id = true := by
    intro id ho
    obtain ⟨t, ht, howns⟩ := List.any_eq_true.mp ho
    obtain ⟨new, hrows, hrow, -⟩ := (insertTasks_inserted hcore).rows
    rw [hrows, List.mem_append] at ht
    rcases ht with ht | ht
    · exact List.any_eq_true.mpr ⟨t, ht, howns⟩
    · obtain ⟨spec, hspec, hadmitted⟩ := forall₂_right hrow ht
      have hrun : t.runId = p.run.id := by
        rw [← (validatePlan_shape hvalid).runId spec hspec]
        rcases hadmitted with ⟨-, n, -, -, rfl⟩ | ⟨-, rfl⟩ <;> rfl
      simp [hrun, hne.symm] at howns
  refine ⟨fun l hlm ho => ?_, fun k hk ho => h.hosts k hk (howns _ ho)⟩
  rcases (Table.mem_insert hl).mp hlm with hold | rfl
  · exact h.launches l hold (howns _ ho)
  · -- the launch of the plan is new, so that no other run has it
    obtain ⟨t, ht, howns⟩ := List.any_eq_true.mp (howns _ ho)
    simp only [Bool.and_eq_true, decide_eq_true_eq] at howns
    obtain ⟨k, hk, hkid⟩ := hb.launches t ht
    exact absurd (hkid.trans howns.2) ((Table.insert?_eq_some.mp hl).1 k hk)

/-! ## Rebinds -/

/-- The state of a rebind that is not on record. -/
def State.rebound (s : State) (spec : RebindOwnerSpec)
    (rebinds : Table fun r : OwnerRebind => (r.runId, r.hostGeneration)) : State :=
  { s with
    ownerRebinds := rebinds
    runs := s.runs.update (fun r => r.id = spec.runId)
      (fun r => { r with originPid := spec.originPid, originBirth := spec.originBirth })
      (Table.keeps Run.id)
    hostLaunches := s.hostLaunches.update (fun l => s.ownsLaunch spec.runId l.id)
      (fun l => { l with hostGeneration := spec.hostGeneration, status := .offline })
      (Table.keeps HostLaunch.id)
    hosts := s.hosts.update (fun h => s.ownsLaunch spec.runId h.launchId)
      (fun h => { h with hostGeneration := spec.hostGeneration, status := .offline })
      (Table.keeps RuntimeHost.id) }

def DB.rebindRow (d : DB) (spec : RebindOwnerSpec) : OwnerRebind :=
  ⟨spec.runId, spec.hostGeneration, spec.originPid, spec.originBirth,
    d.toLower spec.attachmentProofSha256⟩

/-- A rebind repeats one that is on record, or is the first of its generation. -/
theorem rebindOwner_cases {u : Unit} (h : d.rebindOwner s spec = .ok (s', u)) :
    s.MayRebind spec ∧
    ((∃ row ∈ s.ownerRebinds, row.runId = spec.runId ∧ row.hostGeneration = spec.hostGeneration ∧
        row.attachmentProofSha256 = d.toLower spec.attachmentProofSha256 ∧ s' = s) ∨
      ∃ rebinds, s.ownerRebinds.insert? (d.rebindRow spec) = some rebinds ∧
        s' = s.rebound spec rebinds) := by
  simp only [DB.rebindOwner, bind_ok_iff, require_ok, expect_ok, exists_const] at h
  obtain ⟨hvalid, run, hrun, generation, hgeneration, horigin, h⟩ := h
  obtain ⟨hm, hid⟩ := Table.find?_eq_some.mp hrun
  refine ⟨⟨hvalid, ⟨run, hm, hid, horigin⟩, by rw [hgeneration]; rfl⟩, ?_⟩
  split at h
  next row hrow =>
    simp only [bind_ok_iff, require_ok, exists_const, Except.ok.injEq, Prod.mk.injEq] at h
    obtain ⟨hrm, hkey⟩ := Table.find?_eq_some.mp hrow
    obtain ⟨hrunId, hgen⟩ := Prod.mk.inj hkey
    exact .inl ⟨row, hrm, hrunId, hgen, h.1, h.2.1.symm⟩
  next hnone =>
    simp only [bind_ok_iff, require_ok, expect_ok, exists_const, Except.ok.injEq,
      Prod.mk.injEq] at h
    obtain ⟨-, -, rebinds, hi, rfl, -⟩ := h
    exact .inr ⟨rebinds, hi, rfl⟩

theorem exec_deliveryMode_of_run (hx : d.exec s op = .ok s') {run : Run} (hrun : run ∈ s.runs) :
    ∃ run' ∈ s'.runs, run'.id = run.id ∧ run'.deliveryMode = run.deliveryMode := by
  by_cases hplan : ∃ env p, op = .submitPlan env p
  · obtain ⟨env, p, rfl⟩ := hplan
    obtain ⟨receipt, h⟩ := committed_ok.mp hx
    simp only [DB.submitPlan, bind_ok_iff, require_ok, expect_ok, exists_const, Except.ok.injEq,
      Prod.mk.injEq] at h
    obtain ⟨mode, -, _, -, -, runs, hruns, launches, -, core, -, rfl, -⟩ := h
    exact ⟨run, (Table.mem_insert hruns).mpr (.inl hrun), rfl, rfl⟩
  have hplan : ∀ env p, op ≠ .submitPlan env p := fun env p heq => hplan ⟨env, p, heq⟩
  by_cases hrebind : ∃ spec, op = .rebindOwner spec
  · obtain ⟨spec, rfl⟩ := hrebind
    obtain ⟨u, h⟩ := committed_ok.mp hx
    obtain ⟨-, ⟨_, -, -, -, -, rfl⟩ | ⟨rebinds, -, -, rfl⟩⟩ := rebindOwner_cases h
    · exact ⟨run, hrun, rfl, rfl⟩
    · exact ⟨_, Table.patch_mem_update (h := by intro _; rfl) hrun,
        Table.patch_field Run.id (by intro _; rfl) run,
        Table.patch_field Run.deliveryMode (by intro _; rfl) run⟩
  · have hruns := (exec_owners hx hplan fun spec heq => hrebind ⟨spec, heq⟩).1
    exact ⟨run, by rwa [hruns], rfl, rfl⟩

/-- A generation and a proof that are on record are accepted again. -/
theorem rebindOwner_repeats (hmay : s.MayRebind spec) (hrow : row ∈ s.ownerRebinds)
    (hrunId : row.runId = spec.runId) (hgen : row.hostGeneration = spec.hostGeneration)
    (hproof : row.attachmentProofSha256 = d.toLower spec.attachmentProofSha256) :
    d.rebindOwner s spec = .ok (s, ()) := by
  obtain ⟨hvalid, ⟨run, hm, hid, horigin⟩, hgeneration⟩ := hmay
  obtain ⟨generation, hgeneration⟩ := Option.isSome_iff_exists.mp hgeneration
  have hfind : s.runs.find? spec.runId = some run := Table.find?_eq_some.mpr ⟨hm, hid⟩
  have hrebind : s.ownerRebinds.find? (spec.runId, spec.hostGeneration) = some row :=
    Table.find?_eq_some.mpr ⟨hrow, by rw [hrunId, hgen]⟩
  rw [DB.rebindOwner, require_pos hvalid, ok_bind, hfind, expect_some, ok_bind, hgeneration,
    expect_some, ok_bind, require_pos horigin, ok_bind, hrebind]
  dsimp only
  rw [require_pos hproof, ok_bind]

/-- The first rebind to a generation takes effect. -/
theorem rebound_bound {rebinds : Table fun r : OwnerRebind => (r.runId, r.hostGeneration)}
    (hrun : ∃ run ∈ s.runs, run.id = spec.runId) : (s.rebound spec rebinds).BoundTo spec where
  owner := by
    obtain ⟨run, hm, hid⟩ := hrun
    refine ⟨_, Table.patch_mem_update (h := by intro _; rfl) hm, ?_⟩
    rw [Table.patch_pos (by simpa using hid)]
    exact ⟨hid, rfl, rfl⟩
  generation := by
    refine ⟨fun l' hl' ho => ?_, fun h' hh' ho => ?_⟩
    · obtain ⟨l, hl, rfl⟩ := (Table.mem_update (h := by intro _; rfl)).mp hl'
      have hid : s.ownsLaunch spec.runId l.id = true := by
        rwa [Table.patch_field HostLaunch.id (by intro _; rfl)] at ho
      rw [Table.patch_pos (p := fun l : HostLaunch => s.ownsLaunch spec.runId l.id) hid]
    · obtain ⟨h, hh, rfl⟩ := (Table.mem_update (h := by intro _; rfl)).mp hh'
      have hid : s.ownsLaunch spec.runId h.launchId = true := by
        rwa [Table.patch_field RuntimeHost.launchId (by intro _; rfl)] at ho
      rw [Table.patch_pos (p := fun h : RuntimeHost => s.ownsLaunch spec.runId h.launchId) hid]

/-- A launch has one run. -/
theorem owns_unique (hn : Numbered s.toCore) {runId' launchId : String}
    (h : s.ownsLaunch runId launchId = true) (h' : s.ownsLaunch runId' launchId = true) :
    runId = runId' := by
  obtain ⟨t, ht, howns⟩ := List.any_eq_true.mp h
  obtain ⟨u, hu, howns'⟩ := List.any_eq_true.mp h'
  simp only [Bool.and_eq_true, decide_eq_true_eq] at howns howns'
  rw [← howns.1, ← howns'.1]
  exact hn.launch t ht u hu (howns.2.trans howns'.2.symm)

/-- The other runs keep their generations. -/
theorem rebound_generation {rebinds : Table fun r : OwnerRebind => (r.runId, r.hostGeneration)}
    (hn : Numbered s.toCore) (h : s.AtGeneration runId generation) (hne : runId ≠ spec.runId) :
    (s.rebound spec rebinds).AtGeneration runId generation := by
  have hother : ∀ id, s.ownsLaunch runId id = true → s.ownsLaunch spec.runId id = false := by
    intro id ho
    rw [Bool.eq_false_iff]
    exact fun ho' => hne (owns_unique hn ho ho')
  refine ⟨fun l' hl' ho => ?_, fun h' hh' ho => ?_⟩
  · obtain ⟨l, hl, rfl⟩ := (Table.mem_update (h := by intro _; rfl)).mp hl'
    rw [Table.patch_field HostLaunch.id (by intro _; rfl)] at ho
    rw [Table.patch_neg (p := fun l : HostLaunch => s.ownsLaunch spec.runId l.id) (hother _ ho)]
    exact h.launches l hl ho
  · obtain ⟨k, hk, rfl⟩ := (Table.mem_update (h := by intro _; rfl)).mp hh'
    rw [Table.patch_field RuntimeHost.launchId (by intro _; rfl)] at ho
    rw [Table.patch_neg (p := fun h : RuntimeHost => s.ownsLaunch spec.runId h.launchId)
      (hother _ ho)]
    exact h.hosts k hk ho

/-! ## The last rebind -/

/-- A run is bound to the last of its rebinds. -/
def Rebound (s : State) : Prop :=
  ∀ runId row, s.lastRebind runId = some row →
    s.OwnedBy runId row.originPid row.originBirth ∧ s.AtGeneration runId row.hostGeneration

theorem lastRebind_mem (h : s.lastRebind runId = some row) :
    row ∈ s.ownerRebinds ∧ row.runId = runId := by
  have hm := List.mem_of_getLast? h
  simpa [Table.mem_def] using hm

theorem lastRebind_rebound {rebinds : Table fun r : OwnerRebind => (r.runId, r.hostGeneration)}
    (hi : s.ownerRebinds.insert? (d.rebindRow spec) = some rebinds) :
    (s.rebound spec rebinds).lastRebind runId =
      if runId = spec.runId then some (d.rebindRow spec) else s.lastRebind runId := by
  have hrows : rebinds.rows = s.ownerRebinds.rows ++ [d.rebindRow spec] := Table.rows_insert hi
  unfold State.lastRebind State.rebound
  dsimp only
  rw [hrows, List.filter_append]
  by_cases hid : runId = spec.runId
  · rw [if_pos hid, hid]
    simp [DB.rebindRow]
  · rw [if_neg hid]
    simp [DB.rebindRow, Ne.symm hid]

theorem Rebound.exec (h : Rebound s) (hb : Bound s) (hn : Numbered s.toCore)
    (hx : d.exec s op = .ok s') : Rebound s' := by
  by_cases hplan : ∃ env p, op = .submitPlan env p
  · obtain ⟨env, p, rfl⟩ := hplan
    obtain ⟨receipt, hsubmit⟩ := committed_ok.mp hx
    intro runId row hlast
    have hsame : s'.ownerRebinds = s.ownerRebinds ∧ ∃ run, s.runs.insert? run = some s'.runs ∧
        run.id = p.run.id := by
      have hsubmit := hsubmit
      simp only [DB.submitPlan, bind_ok_iff, require_ok, expect_ok, exists_const, Except.ok.injEq,
        Prod.mk.injEq] at hsubmit
      obtain ⟨mode, -, _, -, -, runs, hruns, launches, -, core, -, rfl, -⟩ := hsubmit
      exact ⟨rfl, _, hruns, rfl⟩
    obtain ⟨hrebinds, run, hruns, hrunId⟩ := hsame
    rw [State.lastRebind, hrebinds] at hlast
    obtain ⟨⟨run', hm, hid, hpid, hbirth⟩, hgeneration⟩ := h runId row hlast
    refine ⟨⟨run', (Table.mem_insert hruns).mpr (.inl hm), hid, hpid, hbirth⟩, ?_⟩
    refine submitPlan_generation hgeneration hb hsubmit fun heq => ?_
    exact (Table.insert?_eq_some.mp hruns).1 run' hm (by rw [hid, heq, hrunId])
  have hplan : ∀ env p, op ≠ .submitPlan env p := fun env p heq => hplan ⟨env, p, heq⟩
  by_cases hrebind : ∃ spec, op = .rebindOwner spec
  · obtain ⟨spec, rfl⟩ := hrebind
    obtain ⟨u, hrebind⟩ := committed_ok.mp hx
    obtain ⟨⟨-, hrun, -⟩, ⟨-, -, -, -, -, rfl⟩ | ⟨rebinds, hi, rfl⟩⟩ := rebindOwner_cases hrebind
    · exact h
    intro runId row hlast
    rw [lastRebind_rebound hi] at hlast
    obtain ⟨run, hm, hid, -⟩ := hrun
    split at hlast
    next heq =>
      cases hlast
      have hbound := @rebound_bound _ _ rebinds ⟨run, hm, hid⟩
      exact heq ▸ ⟨hbound.owner, hbound.generation⟩
    next hne =>
      obtain ⟨⟨run', hm', hid', howner⟩, hgeneration⟩ := h runId row hlast
      refine ⟨⟨run', ?_, hid', howner⟩, rebound_generation hn hgeneration hne⟩
      exact Table.mem_update_of_not (h := by intro _; rfl) hm' (by simpa [hid'] using hne)
  have hrebind : ∀ spec, op ≠ .rebindOwner spec := fun spec heq => hrebind ⟨spec, heq⟩
  obtain ⟨hruns, hrebinds⟩ := exec_owners hx hplan hrebind
  intro runId row hlast
  rw [State.lastRebind, hrebinds] at hlast
  obtain ⟨howner, hgeneration⟩ := h runId row hlast
  exact ⟨by rwa [State.OwnedBy, hruns], hgeneration.exec hb hx hplan hrebind⟩

theorem rebound_of_reachable (hr : d.Reachable limits s) : Rebound s := by
  have hall : d.Reachable limits s ∧ Rebound s := by
    refine reachable_induct (P := fun s : State => d.Reachable limits s ∧ Rebound s)
      ⟨reachable_fresh d limits, fun _ _ h => by cases h⟩ ?_ hr
    intro s op s' ⟨hr, hs⟩ hx
    exact ⟨step_of_exec hx ▸ reachable_step op hr,
      hs.exec (bound_of_reachable hr) (numbered_of_reachable hr) hx⟩
  exact hall.2

/-- Where a rebind is accepted, its effect is there if and only if it repeats none but the last. -/
theorem rebindOwner_bound_iff (hr : d.Reachable limits s) :
    (∀ s' u, d.rebindOwner s spec = .ok (s', u) → s'.BoundTo spec) ↔ d.RepeatsLast s spec := by
  constructor
  · intro h hmay row hrow hrunId hgen hproof
    obtain ⟨⟨run, hm, hid, hpid, hbirth⟩, hgeneration⟩ :=
      h s () (rebindOwner_repeats hmay hrow hrunId hgen hproof)
    obtain ⟨last, hlast⟩ : ∃ last, s.lastRebind spec.runId = some last := by
      refine Option.isSome_iff_exists.mp ?_
      rw [State.lastRebind, Option.isSome_iff_ne_none, Ne, List.getLast?_eq_none_iff]
      exact List.ne_nil_of_mem (List.mem_filter.mpr ⟨hrow, by simpa using hrunId⟩)
    obtain ⟨⟨run', hm', hid', hpid', hbirth'⟩, hgeneration'⟩ := rebound_of_reachable hr _ _ hlast
    obtain rfl : run = run' := Table.eq_of_key hm hm' (hid.trans hid'.symm)
    obtain ⟨hlm, hlid⟩ := lastRebind_mem hlast
    -- the run has a launch, of both generations
    have hsame : last.hostGeneration = spec.hostGeneration := by
      obtain ⟨-, -, hlaunched⟩ := hmay
      obtain ⟨t, ht, hsome⟩ := List.findSome?_isSome_iff.mp hlaunched
      obtain ⟨ht, htrun⟩ : t ∈ s.tasks.rows ∧ t.runId = spec.runId := by simpa using ht
      rw [Option.isSome_map, Option.isSome_iff_exists] at hsome
      obtain ⟨l, hl⟩ := hsome
      obtain ⟨hlmem, hlaunch⟩ := Table.find?_eq_some.mp hl
      have howns : s.ownsLaunch spec.runId l.id = true :=
        List.any_eq_true.mpr ⟨t, ht, by simp [htrun, hlaunch]⟩
      exact (hgeneration'.launches l hlmem howns).symm.trans (hgeneration.launches l hlmem howns)
    obtain rfl : last = row := Table.eq_of_key hlm hrow (by rw [hlid, hsame, hrunId, hgen])
    exact ⟨hlast, hpid'.symm.trans hpid, hbirth'.symm.trans hbirth⟩
  · intro h s' u hok
    obtain ⟨hmay, ⟨row, hrow, hrunId, hgen, hproof, rfl⟩ | ⟨rebinds, -, rfl⟩⟩ :=
      rebindOwner_cases hok
    · obtain ⟨hlast, hpid, hbirth⟩ := h hmay row hrow hrunId hgen hproof
      obtain ⟨howner, hgeneration⟩ := rebound_of_reachable hr _ _ hlast
      exact ⟨hpid ▸ hbirth ▸ howner, hgen ▸ hgeneration⟩
    · obtain ⟨-, ⟨run, hm, hid, -⟩, -⟩ := hmay
      exact rebound_bound ⟨run, hm, hid⟩

end

/-! ## The request -/

/-- What a rebind uses of an `OwnerGrant`. -/
structure OwnerGrant where
  id : String
  controllerThread : String
  originPid : Int
  originBirth : String
  hostGeneration : String
  deriving DecidableEq, Repr

structure RebindOwnerRequest where
  ownerMode : String := ""
  ownerCapability : String := ""
  runId : String
  controllerThread : String
  controlToken : String
  originContextId : String
  originPid : Int
  originBirth : String
  hostGeneration : String
  attachmentProofSha256 : String := ""
  deriving DecidableEq, Repr

inductive RebindError where
  | ownerModeInvalid
  | localOwner
  | store (e : CodeError)
  deriving DecidableEq, Repr

/-- `ValidateRunOwner`, with any failure as a conflict. -/
def DB.validateRunOwner (d : DB) (s : State) (runId controller controlToken : String) :
    Except CodeError Run := do
  let run ← expect (s.runs.find? runId) .conflict
  require (controller ≠ "" ∧ controlToken ≠ "" ∧ run.controllerThread = controller ∧
    run.controlTokenHash = d.runtimeHash controlToken) .conflict
  .ok run

/-- What the coordinator asks of its host: the grant of a capability file, and the birth of a
process that is alive. -/
structure OwnerChecks where
  localOwner : String → Option OwnerGrant
  birth : Int → Option String

/-- The proof of a request, which a local owner does not send itself. -/
def DB.rebindProof (d : DB) (checks : OwnerChecks) (r : RebindOwnerRequest) :
    Except RebindError String :=
  if r.ownerMode = "local" then
    match checks.localOwner r.ownerCapability with
    | none => .error .localOwner
    | some g =>
      if g.controllerThread ≠ r.controllerThread ∨ g.originPid ≠ r.originPid ∨
          g.originBirth ≠ r.originBirth ∨ g.hostGeneration ≠ r.hostGeneration then
        .error (.store .conflict)
      else .ok (d.runtimeHash ("local-owner-rebind-v1\x00" ++ g.id ++ "\x00" ++ g.originBirth))
  else if r.ownerMode ≠ "" ∧ r.ownerMode ≠ "native" then .error .ownerModeInvalid
  else .ok r.attachmentProofSha256

def RebindOwnerRequest.spec (r : RebindOwnerRequest) (proof : String) : RebindOwnerSpec :=
  ⟨r.runId, r.originContextId, r.originPid, r.originBirth, r.hostGeneration, proof⟩

/-- The checks of a `rebind_owner` request, and the rebind that it asks for. -/
def DB.rebindSpec (d : DB) (checks : OwnerChecks) (s : State) (r : RebindOwnerRequest) :
    Except RebindError RebindOwnerSpec :=
  match d.rebindProof checks r with
  | .error e => .error e
  | .ok proof => match d.validateRunOwner s r.runId r.controllerThread r.controlToken with
    | .error e => .error (.store e)
    | .ok run =>
      if run.originContextId ≠ r.originContextId then .error (.store .conflict)
      else if checks.birth run.originPid = some run.originBirth then .error (.store .conflict)
      else if checks.birth r.originPid ≠ some r.originBirth then .error (.store .conflict)
      else .ok (r.spec proof)

/-- `control`, for a `rebind_owner` request. -/
def DB.controlRebindOwner (d : DB) (checks : OwnerChecks) (s : State) (r : RebindOwnerRequest) :
    Except RebindError State :=
  match d.rebindSpec checks s r with
  | .error e => .error e
  | .ok spec => match d.rebindOwner s spec with
    | .error e => .error (.store e)
    | .ok (s', _) => .ok s'

theorem controlRebindOwner_ok {d : DB} {checks : OwnerChecks} {s s' : State}
    {r : RebindOwnerRequest} : d.controlRebindOwner checks s r = .ok s' ↔
      ∃ spec, d.rebindSpec checks s r = .ok spec ∧ d.rebindOwner s spec = .ok (s', ()) := by
  unfold DB.controlRebindOwner
  cases d.rebindSpec checks s r with
  | error e => simp
  | ok spec =>
    cases h : d.rebindOwner s spec with
    | error e => simp [h]
    | ok p => simp [h, Prod.ext_iff]

/-- In every state that is reached, the rebinds that are accepted have taken effect if and only if
they repeat none but the last of the run; and so have the requests to the coordinator. -/
theorem rebind_took_effect_iff (d : DB) (limits : ConcurrencyLimits) (ops : List Op) :
    let s := d.run (State.fresh limits) ops
    (∀ spec, (∀ s' u, d.rebindOwner s spec = .ok (s', u) → s'.BoundTo spec) ↔
      d.RepeatsLast s spec) ∧
    ∀ checks r spec, d.rebindSpec checks s r = .ok spec →
      ((∀ s', d.controlRebindOwner checks s r = .ok s' → s'.BoundTo spec) ↔
        d.RepeatsLast s spec) := by
  intro s
  have hr : d.Reachable limits s := ⟨ops, rfl⟩
  refine ⟨fun spec => rebindOwner_bound_iff hr, fun checks r spec hspec => ?_⟩
  rw [← rebindOwner_bound_iff hr]
  constructor
  · intro h s' u hok
    exact h s' (controlRebindOwner_ok.mpr ⟨spec, hspec, hok⟩)
  · intro h s' hok
    obtain ⟨spec', hspec', hok⟩ := controlRebindOwner_ok.mp hok
    cases hspec.symm.trans hspec'
    exact h s' () hok

def toyRebind (generation : String) (pid : Int) : RebindOwnerSpec where
  runId := "run"
  originContextId := "origin"
  originPid := pid
  originBirth := "birth"
  hostGeneration := generation
  attachmentProofSha256 := toyDigest generation

def toyRebindRequest (generation : String) (pid : Int) : RebindOwnerRequest where
  runId := "run"
  controllerThread := "thread"
  controlToken := "control-token-10"
  originContextId := "origin"
  originPid := pid
  originBirth := "birth"
  hostGeneration := generation
  attachmentProofSha256 := toyDigest generation

/-- The process is the only one that is alive. -/
def onlyAlive (pid : Int) : OwnerChecks :=
  ⟨fun _ => none, fun p => if p = pid then some "birth" else none⟩

/-- A run that has been rebound twice. -/
def reboundOps : List Op :=
  toyStart [toyTask "a" 1 []] ++
    [Op.rebindOwner (toyRebind "first" 5), .rebindOwner (toyRebind "second" 6)]

/-- A third process rebinds the run. -/
theorem third_rebind_takes_effect :
    let s := toyDB.run (State.fresh {}) reboundOps
    (∀ s', toyDB.controlRebindOwner (onlyAlive 7) s (toyRebindRequest "third" 7) = .ok s' →
      s'.BoundTo (toyRebind "third" 7)) ↔ toyDB.RepeatsLast s (toyRebind "third" 7) :=
  (rebind_took_effect_iff toyDB {} reboundOps).2 (onlyAlive 7) (toyRebindRequest "third" 7)
    (toyRebind "third" 7) (by decide +kernel)

/-- The first of the two owners is told that it has the run again. -/
theorem replaced_owner_is_told_rebound :
    let s := toyDB.run (State.fresh {}) reboundOps
    ¬ (∀ s' u, toyDB.rebindOwner s (toyRebind "first" 5) = .ok (s', u) →
      s'.BoundTo (toyRebind "first" 5)) ∧
    ¬ ∀ s', toyDB.controlRebindOwner (onlyAlive 5) s (toyRebindRequest "first" 5) = .ok s' →
      s'.BoundTo (toyRebind "first" 5) := by
  intro s
  have hfacts : ((toyDB.rebindOwner s (toyRebind "first" 5)).toOption.map fun p =>
        p.1.runs.rows.map fun run => (run.id, run.originPid)) = some [("run", 6)] ∧
      ((toyDB.controlRebindOwner (onlyAlive 5) s
        (toyRebindRequest "first" 5)).toOption.map fun s' =>
          s'.runs.rows.map fun run => (run.id, run.originPid)) = some [("run", 6)] := by
    decide +kernel
  obtain ⟨hstore, hrequest⟩ := hfacts
  have hnot : ∀ s' : State, s'.runs.rows.map (fun run => (run.id, run.originPid)) = [("run", 6)] →
      ¬ s'.BoundTo (toyRebind "first" 5) := by
    rintro s' hruns ⟨⟨run, hrun, -, hpid, -⟩, -⟩
    have hmem := List.mem_map_of_mem (f := fun run : Run => (run.id, run.originPid)) hrun
    rw [hruns, List.mem_singleton] at hmem
    have hsix : run.originPid = 6 := congrArg Prod.snd hmem
    rw [hsix] at hpid
    cases hpid
  refine ⟨fun h => ?_, fun h => ?_⟩
  · obtain ⟨p, hp, hruns⟩ := Option.map_eq_some_iff.mp hstore
    exact hnot p.1 hruns (h p.1 p.2 (toOption_eq_some.mp hp))
  · obtain ⟨s', hs', hruns⟩ := Option.map_eq_some_iff.mp hrequest
    exact hnot s' hruns (h s' (toOption_eq_some.mp hs'))

end Orchestrator.Store
