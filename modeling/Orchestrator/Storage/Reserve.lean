import Orchestrator.Storage.Migration
import Orchestrator.Events.Held

/-!
# The critical reserve

Progress reports are admitted against limits of their own, below the limits of
everything. The difference is kept for all other records: what progress has
taken is bounded in every scope, so only other critical records can use the
reserve up.
-/
namespace Orchestrator.Store
open Library

/-! ## Admission -/

/-- The check of the free disk space. -/
def DB.diskAdmits (d : DB) (disk : Option Nat) (incoming : Int) (diagnostic : Bool) : Prop :=
  ∃ available, disk = some available ∧ ∃ reserve,
    (if diagnostic then addRequired d.minFreeBytes d.criticalDiskReserve
      else some d.minFreeBytes) = some reserve ∧
    ∃ written, addRequired reserve incoming.toNat = some written ∧
      ∃ required, addRequired written d.sqliteWriteOverhead = some required ∧ required ≤ available

theorem storageAdmission_ok {d : DB} {s : State} {disk : Option Nat} {runId : String}
    {incoming : Int} {diagnostic : Bool} :
    d.storageAdmission s disk runId incoming diagnostic = .ok () ↔
      0 ≤ incoming ∧ d.diskAdmits disk incoming diagnostic ∧
      ¬ (exceeds incoming (usedBytes s (.run runId)).1 d.runControlLimit ∨
        exceeds incoming (usedBytes s .global).1 d.userControlLimit) ∧
      (diagnostic = true → ¬ (exceeds incoming (usedBytes s (.run runId)).2 d.runProgressLimit ∨
        exceeds incoming (usedBytes s .global).2 d.userProgressLimit)) := by
  simp only [DB.storageAdmission, DB.diskAdmits, bind_ok_iff, require_ok, expect_ok, exists_const]
  constructor
  · rintro ⟨h0, a, ha, m, hm, w, hw, r, hr, hle, hlim, hp⟩
    exact ⟨h0, ⟨a, ha, m, hm, w, hw, r, hr, hle⟩, hlim, hp⟩
  · rintro ⟨h0, ⟨a, ha, m, hm, w, hw, r, hr, hle⟩, hlim, hp⟩
    exact ⟨h0, a, ha, m, hm, w, hw, r, hr, hle, hlim, hp⟩

/-- Saturating comparison is comparison of the sum, where nothing is negative. -/
theorem not_exceeds {incoming used limit : Int} (h : 0 ≤ used) :
    ¬ exceeds incoming used limit ↔ used + incoming ≤ limit := by
  unfold exceeds
  omega

section Usage
variable {d : DB} {env : Env} {s s' : State} {op : Op} {e : Event} {c : ReportCapability}
  {spec : ReportEventSpec} {kind : ReportKind} {payloadHash : String}

theorem Recorded.run (h : Recorded d env s e s') (hc : Counted d s) :
    ∃ runId, s.taskRun e.taskId = some runId := by
  obtain ⟨g, hg, -, hbound⟩ := h.segment
  exact Option.isSome_iff_exists.mp (hbound.2.2.1 ▸ hc.segments g hg)

theorem Recorded.usage (h : Recorded d env s e s') (hc : Counted d s) (x : Scope) :
    usedBytes s' x = usedBytes s x + d.eventValue s (d.runtimeEventRow e) x := by
  obtain ⟨runId, hrun⟩ := h.run hc
  obtain ⟨s₁, h₁, h₂⟩ := h.applied
  obtain ⟨husage, -⟩ := applyEvent_uncounted h₂
  obtain ⟨-, -, -, hread⟩ := credits_spec (appendEvent_trigger hc.valid hrun h.stored) hc.valid
  simp only [DB.appendEvent, bind_ok_iff, expect_ok, Except.ok.injEq] at h₁
  obtain ⟨events, -, order, -, rfl⟩ := h₁
  rw [usedBytes_eq, usedBytes_eq, husage]
  exact congrFun hread x

theorem Filed.run (h : Filed d env s c spec kind payloadHash e s') :
    s.capabilityRun spec.capabilityId = some c.runId := by
  rw [State.capabilityRun, Table.find?_eq_some.mpr ⟨h.capability, h.named⟩, Option.map_some]

theorem Filed.usage (h : Filed d env s c spec kind payloadHash e s') (hc : Counted d s)
    (x : Scope) :
    usedBytes s' x = usedBytes s x + s.reportValue (d.reportRow spec kind payloadHash e) x := by
  obtain ⟨s₁, h₁, h₂⟩ := h.applied
  obtain ⟨-, -, -, hread⟩ :=
    credits_spec (appendReport_trigger hc.valid h.run h.accounted h₁) hc.valid
  obtain ⟨core, questions, stops, rfl⟩ := askReported_frame h₂
  rw [usedBytes_eq, usedBytes_eq]
  exact congrFun hread x

/-- An accepted operation leaves the counters alone, or commits one record. -/
theorem exec_usage (hx : d.exec s op = .ok s') :
    (op.commits = false ∧ s'.storageUsage = s.storageUsage) ∨ s' = s ∨
      (∃ env e, op = .commitHostEvent env e ∧ Recorded d env s e s') ∨
      ∃ env probe spec c kind payloadHash e, op = .commitReportEvent env probe spec ∧
        Filed d env s c spec kind payloadHash e s' := by
  by_cases hop : op.commits = false
  · exact .inl ⟨hop, ((exec_writes hx).uncounted hop).1⟩
  · cases op <;> simp only [Op.commits, not_true, not_false_eq_true, Bool.true_eq_false] at hop
    case commitHostEvent env e =>
      simp only [DB.exec, committed_ok] at hx
      obtain ⟨ack, hx⟩ := hx
      obtain h | h := commitHostEvent_recorded hx
      · exact .inr (.inl h)
      · exact .inr (.inr (.inl ⟨env, e, rfl, h⟩))
    case commitReportEvent env probe spec =>
      simp only [DB.exec, committed_ok] at hx
      obtain ⟨ack, hx⟩ := hx
      obtain h | ⟨c, kind, payloadHash, e, h⟩ := commitReportEvent_filed hx
      · exact .inr (.inl h)
      · exact .inr (.inr (.inr ⟨env, probe, spec, c, kind, payloadHash, e, rfl, h⟩))

theorem counted_of_reachable {limits : ConcurrencyLimits} (h : d.Reachable limits s) :
    Counted d s :=
  reachable_induct (Counted.fresh d limits) (fun _ _ _ hc hx => hc.exec hx) h

/-! ## What progress has taken -/

/-- The limit of progress bytes in a scope. -/
def DB.progressLimit (d : DB) : Scope → Int
  | .global => d.userProgressLimit
  | .run _ => d.runProgressLimit
  | .capability _ => d.reportProgressLimit

theorem eventValue_progress (r : RuntimeEvent) (x : Scope) : (d.eventValue s r x).2 = 0 := by
  rw [eventValue_apply]
  split <;> rfl

theorem readUsage_nonneg (hc : Counted d s) (x : Scope) :
    0 ≤ (usedBytes s x).1 ∧ 0 ≤ (usedBytes s x).2 := by
  rw [usedBytes_eq]
  obtain ⟨h0, h1, -⟩ := hc.valid.read x
  exact ⟨h0, h1⟩

/-- A progress report fits below the progress limit of each scope it is charged to. -/
theorem Filed.progress_le (h : Filed d env s c spec .progress payloadHash e s') (hc : Counted d s)
    {x : Scope} (hx : s.reportIn x (d.reportRow spec .progress payloadHash e) = true) :
    (usedBytes s x).2 + d.accountedBytes .progress e ≤ d.progressLimit x := by
  obtain ⟨-, -, -, hdiag⟩ := storageAdmission_ok.mp h.admitted
  obtain ⟨hrun, huser⟩ := not_or.mp (hdiag (decide_eq_true rfl))
  have hwithin := (not_or.mp h.within).2
  cases x with
  | global => exact (not_exceeds (readUsage_nonneg hc _).2).mp huser
  | run id =>
    have hid : s.capabilityRun spec.capabilityId = some id := of_decide_eq_true hx
    obtain rfl : c.runId = id := Option.some.inj (h.run.symm.trans hid)
    exact (not_exceeds (readUsage_nonneg hc _).2).mp hrun
  | capability id =>
    obtain rfl : spec.capabilityId = id := of_decide_eq_true hx
    refine (not_exceeds (readUsage_nonneg hc _).2).mp fun hex => hwithin ⟨rfl, ?_⟩
    rw [h.named]
    exact hex

def Reserved (d : DB) (s : State) : Prop := ∀ x, (usedBytes s x).2 ≤ d.progressLimit x

theorem Reserved.exec (h : Reserved d s) (hc : Counted d s) (hx : d.exec s op = .ok s') :
    Reserved d s' := by
  intro x
  obtain ⟨-, husage⟩ | rfl | ⟨env, e, -, hr⟩ | ⟨env, probe, spec, c, kind, payloadHash, e, -, hf⟩ :=
    exec_usage hx
  · rw [usedBytes_eq, husage, ← usedBytes_eq]
    exact h x
  · exact h x
  · rw [hr.usage hc, Prod.snd_add, eventValue_progress, add_zero]
    exact h x
  · rw [hf.usage hc, Prod.snd_add, reportValue_apply]
    split
    · rename_i hin
      by_cases hk : kind = .progress
      · subst hk
        exact hf.progress_le hc hin
      · have hzero : (d.reportRow spec kind payloadHash e).bytes.2 = 0 := if_neg hk
        rw [hzero, add_zero]
        exact h x
    · rw [Prod.snd_zero, add_zero]
      exact h x

/-! ## What a capability has used -/

/-- `used_bytes` of a capability is its counter. -/
def Metered (s : State) : Prop :=
  ∀ c ∈ s.reportCapabilities, c.usedBytes = (usedBytes s (.capability c.capabilityId)).1

theorem registerReportCapability_used {info : Option FileInfo} {r : ReportCapabilityRegistration}
    {ack : DurableAck} (h : d.registerReportCapability s info r = .ok (s', ack)) :
    s'.storageUsage = s.storageUsage ∧ ∀ c' ∈ s'.reportCapabilities, ∃ c ∈ s.reportCapabilities,
      c'.capabilityId = c.capabilityId ∧ c'.usedBytes = c.usedBytes := by
  simp only [DB.registerReportCapability, bind_ok_iff, require_ok, expect_ok, exists_const,
    Except.ok.injEq, Prod.mk.injEq] at h
  obtain ⟨-, _, -, -, c, -, host, -, -, -, -, rfl, -⟩ := h
  refine ⟨rfl, fun c' hc' => ?_⟩
  obtain ⟨c, hc, rfl⟩ := (Table.mem_update (h := by intro _; rfl)).mp hc'
  refine ⟨c, hc, ?_, ?_⟩
  · exact Table.patch_field ReportCapability.capabilityId (by intro _; rfl) c
  · exact Table.patch_field ReportCapability.usedBytes (by intro _; rfl) c

/-- A capability that is not there has no reports. -/
theorem used_of_unknown (hc : Counted d s) {id : String}
    (h : ∀ c ∈ s.reportCapabilities, c.capabilityId ≠ id) :
    usedBytes s (.capability id) = 0 := by
  rw [usedBytes_eq, hc.equal, storedBytes_eq, DB.storedBytes]
  have hnone : s.reportEvents.rows.filter (s.reportIn (.capability id)) = [] := by
    refine List.filter_eq_nil_iff.mpr fun r hr hin => ?_
    obtain ⟨runId, hrun⟩ := hc.report_run hr
    obtain ⟨c, hfind, -⟩ := Option.map_eq_some_iff.mp hrun
    obtain ⟨hm, hid⟩ := Table.find?_eq_some.mp hfind
    exact h c hm (hid.trans (of_decide_eq_true hin))
  have hevents : s.runtimeEvents.rows.filter (s.eventIn (.capability id)) = [] :=
    List.filter_eq_nil_iff.mpr fun _ _ h => Bool.noConfusion h
  rw [hnone, hevents]
  rfl

/-- Operations that neither claim, register nor file leave capabilities alone. -/
theorem Writes.meters (h : Writes d s op s') :
    s'.reportCapabilities = s.reportCapabilities ∨
      (∃ info r, op = .registerReportCapability info r) ∨
      (∃ env probe spec, op = .commitReportEvent env probe spec) ∨
      ∃ row, s.reportCapabilities.insert? row = some s'.reportCapabilities ∧ row.usedBytes = 0 := by
  cases h with
  | claim h =>
    obtain ⟨c₁, c₂, caps, -, -, hc, rfl, -⟩ := launch_cases h.launched
    exact .inr (.inr (.inr ⟨_, hc, rfl⟩))
  | register => exact .inr (.inl ⟨_, _, rfl⟩)
  | report => exact .inr (.inr (.inl ⟨_, _, _, rfl⟩))
  | event _ _ _ _ _ h₁ h₂ =>
    obtain ⟨-, -, hcaps, -⟩ := applyEvent_uncounted h₂
    obtain ⟨events, order, usage, rfl⟩ := appendEvent_frame h₁
    exact .inl hcaps
  | _ => exact .inl rfl

theorem Filed.metered (h : Filed d env s c spec kind payloadHash e s') (hc : Counted d s)
    (hm : Metered s) : Metered s' := by
  intro c' hc'
  rw [h.usage hc, reportValue_apply]
  obtain ⟨s₁, h₁, h₂⟩ := h.applied
  obtain ⟨row, events, order, usage, -, -, -, rfl⟩ := appendReport_frame h₁
  obtain ⟨core, questions, stops, rfl⟩ := askReported_frame h₂
  obtain ⟨c₀, hc₀, rfl⟩ := (Table.mem_update (h := by intro _; rfl)).mp hc'
  rw [Table.patch_field ReportCapability.capabilityId (by intro _; rfl) c₀]
  by_cases hid : c₀.capabilityId = spec.capabilityId
  · have hin : s.reportIn (.capability c₀.capabilityId) (d.reportRow spec kind payloadHash e) =
        true := decide_eq_true hid.symm
    rw [Table.patch_pos (by simpa using hid), if_pos hin, Prod.fst_add, ← hm c₀ hc₀]
    rfl
  · have hin : ¬ s.reportIn (.capability c₀.capabilityId) (d.reportRow spec kind payloadHash e) =
        true := fun h => hid (of_decide_eq_true h).symm
    rw [Table.patch_neg (by simpa using hid), if_neg hin, add_zero]
    exact hm c₀ hc₀

theorem Metered.exec (h : Metered s) (hc : Counted d s) (hx : d.exec s op = .ok s') :
    Metered s' := by
  obtain ⟨hop, husage⟩ | rfl | ⟨env, e, rfl, hr⟩ |
    ⟨env, probe, spec, c, kind, payloadHash, e, rfl, hf⟩ := exec_usage hx
  · have hread : usedBytes s' = usedBytes s := by rw [usedBytes_eq, usedBytes_eq, husage]
    obtain hsame | ⟨info, r, rfl⟩ | ⟨_, _, _, rfl⟩ | ⟨row, hi, hrow⟩ := (exec_writes hx).meters
    · intro c hcm
      rw [hread]
      exact h c (hsame ▸ hcm)
    · simp only [DB.exec, committed_ok] at hx
      obtain ⟨ack, hx⟩ := hx
      intro c' hcm
      obtain ⟨c, hc₀, hid, hused⟩ := (registerReportCapability_used hx).2 c' hcm
      rw [hread, hid, hused]
      exact h c hc₀
    · cases hop
    · intro c hcm
      rw [hread]
      rcases (Table.mem_insert hi).mp hcm with hcm | rfl
      · exact h c hcm
      · rw [hrow, used_of_unknown hc (Table.insert?_eq_some.mp hi).1]
        rfl
  · exact h
  · intro c hcm
    obtain hsame | ⟨_, _, hop⟩ | ⟨_, _, _, hop⟩ | ⟨row, hi, hrow⟩ := (exec_writes hx).meters
    · rw [hr.usage hc, Prod.fst_add, eventValue_apply, if_neg (by simp [State.eventIn])]
      exact (h c (hsame ▸ hcm)).trans (add_zero _).symm
    · cases hop
    · cases hop
    · obtain ⟨s₁, h₁, h₂⟩ := hr.applied
      obtain ⟨-, -, hcaps, -⟩ := applyEvent_uncounted h₂
      obtain ⟨events, order, usage, rfl⟩ := appendEvent_frame h₁
      rw [hr.usage hc, Prod.fst_add, eventValue_apply, if_neg (by simp [State.eventIn])]
      exact (h c (hcaps ▸ hcm)).trans (add_zero _).symm
  · exact hf.metered hc h

theorem reserved_of_reachable {limits : ConcurrencyLimits} (hrun : 0 ≤ d.runProgressLimit)
    (huser : 0 ≤ d.userProgressLimit) (hreport : 0 ≤ d.reportProgressLimit)
    (h : d.Reachable limits s) : Reserved d s := by
  have hinv : Counted d s ∧ Reserved d s := by
    refine reachable_induct (P := fun s => Counted d s ∧ Reserved d s)
      ⟨.fresh d limits, fun x => ?_⟩ (fun _ _ _ hs hx => ⟨hs.1.exec hx, hs.2.exec hs.1 hx⟩) h
    have hzero : (usedBytes (State.fresh limits) x).2 = 0 := by cases x <;> rfl
    rw [hzero]
    cases x with
    | global => exact huser
    | run id => exact hrun
    | capability id => exact hreport
  exact hinv.2

theorem metered_of_reachable {limits : ConcurrencyLimits} (h : d.Reachable limits s) :
    Metered s := by
  have hinv : Counted d s ∧ Metered s :=
    reachable_induct (P := fun s => Counted d s ∧ Metered s)
      ⟨.fresh d limits, fun _ h => (nomatch h)⟩
      (fun _ _ _ hs hx => ⟨hs.1.exec hx, hs.2.exec hs.1 hx⟩) h
  exact hinv.2

/-! ## The reserve -/

/-- The quotas of a store. -/
structure Quota where
  runControl : Int
  userControl : Int
  runProgress : Int
  userProgress : Int
  reportControl : Int
  reportProgress : Int

/-- The same store with other quotas. -/
def DB.withQuota (d : DB) (q : Quota) : DB :=
  { d with
    runControlLimit := q.runControl
    userControlLimit := q.userControl
    runProgressLimit := q.runProgress
    userProgressLimit := q.userProgress
    reportControlLimit := q.reportControl
    reportProgressLimit := q.reportProgress }

/-- The limit of all bytes in a scope. -/
def DB.controlLimit (d : DB) : Scope → Int
  | .global => d.userControlLimit
  | .run _ => d.runControlLimit
  | .capability _ => d.reportControlLimit

/-- Bytes of a scope's rows that are not progress. -/
def DB.criticalBytes (d : DB) (s : State) (scope : Scope) : Int :=
  total (fun r => d.runtimeStoredBytes r.body) (s.runtimeEvents.rows.filter (s.eventIn scope)) +
    total ReportEvent.accountedBytes
      ((s.reportEvents.rows.filter (s.reportIn scope)).filter (fun r => r.kind ≠ .progress))

/-- Other bytes fit into what progress may not take. -/
def DB.reserveHolds (d : DB) (s : State) (scope : Scope) (bytes : Int) : Prop :=
  d.criticalBytes s scope + bytes ≤ d.controlLimit scope - d.progressLimit scope

/-- The capability, kind and event of a report. -/
def DB.reportOf (d : DB) (s : State) (spec : ReportEventSpec) :
    Option (ReportCapability × ReportKind × Event) := do
  let kind ← parseReportKind spec.kind
  let c ← s.reportCapabilities.find? spec.capabilityId
  let payload ← d.canonicalReportPayload spec.payload
  let e ← (d.decodeReportPayload kind payload).toOption
  some (c, kind, reportEvent c spec kind (d.runtimeHash payload) (s.sessions.find? c.segmentId) e)

theorem criticalBytes_eq (hc : Counted d s) (x : Scope) :
    d.criticalBytes s x = (usedBytes s x).1 - (usedBytes s x).2 := by
  rw [usedBytes_eq, hc.equal, storedBytes_eq, DB.storedBytes, DB.criticalBytes]
  have hprogress : total ReportEvent.progressBytes (s.reportEvents.rows.filter (s.reportIn x)) =
      total ReportEvent.accountedBytes ((s.reportEvents.rows.filter (s.reportIn x)).filter
        (fun r => r.kind = .progress)) := by
    rw [← total_ite (p := fun r : ReportEvent => r.kind = .progress)]
    exact total_congr fun r _ => by simp [ReportEvent.progressBytes]
  have hsplit : ∀ rows : List ReportEvent, total ReportEvent.accountedBytes rows =
      total ReportEvent.accountedBytes (rows.filter (fun r => r.kind = .progress)) +
        total ReportEvent.accountedBytes (rows.filter (fun r => !decide (r.kind = .progress))) :=
    fun _ => total_filter.symm
  simp only [hprogress, hsplit (s.reportEvents.rows.filter (s.reportIn x)), ne_eq, decide_not]
  omega

theorem Reserved.fits (h : Reserved d s) (hc : Counted d s) {x : Scope} {bytes : Int}
    (hx : d.reserveHolds s x bytes) : ¬ exceeds bytes (usedBytes s x).1 (d.controlLimit x) := by
  rw [not_exceeds (readUsage_nonneg hc x).1]
  have hcritical := criticalBytes_eq hc x
  have hprogress := h x
  unfold DB.reserveHolds at hx
  omega

theorem Reserved.admits (h : Reserved d s) (hc : Counted d s) {q : Quota} {disk : Option Nat}
    {runId : String} {bytes : Int} (hrun : d.reserveHolds s (.run runId) bytes)
    (huser : d.reserveHolds s .global bytes)
    (hq : (d.withQuota q).storageAdmission s disk runId bytes false = .ok ()) :
    d.storageAdmission s disk runId bytes false = .ok () := by
  obtain ⟨h0, hdisk, -⟩ := storageAdmission_ok.mp hq
  exact storageAdmission_ok.mpr ⟨h0, hdisk, not_or.mpr ⟨h.fits hc hrun, h.fits hc huser⟩,
    Bool.noConfusion⟩

/-- Whatever progress has been reported, another record is committed that would
be under some quotas, and that fits into the reserve of each of its scopes. -/
theorem progress_spares_reserve {limits : ConcurrencyLimits} (hrun : 0 ≤ d.runProgressLimit)
    (huser : 0 ≤ d.userProgressLimit) (hreport : 0 ≤ d.reportProgressLimit)
    (h : d.Reachable limits s) (q : Quota) (env : Env) :
    (∀ probe spec c kind e r, d.reportOf s spec = some (c, kind, e) → kind ≠ .progress →
      d.reserveHolds s (.run c.runId) (d.accountedBytes kind e) →
      d.reserveHolds s .global (d.accountedBytes kind e) →
      d.reserveHolds s (.capability c.capabilityId) (d.accountedBytes kind e) →
      (d.withQuota q).commitReportEvent env probe s spec = .ok r →
      d.commitReportEvent env probe s spec = .ok r) ∧
    (∀ e r, d.reserveHolds s (.run e.runId) (d.runtimeStoredBytes e) →
      d.reserveHolds s .global (d.runtimeStoredBytes e) →
      (d.withQuota q).commitHostEvent env s e = .ok r →
      d.commitHostEvent env s e = .ok r) := by
  have hc := counted_of_reachable h
  have hres := reserved_of_reachable hrun huser hreport h
  have hm := metered_of_reachable h
  constructor
  · intro probe spec c kind e r hof hkind hfitRun hfitUser hfitCap hq
    simp only [DB.reportOf, Option.bind_eq_bind, Option.bind_eq_some_iff, toOption_eq_some,
      Option.some.injEq, Prod.mk.injEq] at hof
    obtain ⟨kind, hk, c, hcap, payload, hpayload, e₀, hdec, rfl, rfl, rfl⟩ := hof
    simp only [DB.commitReportEvent, bind_ok_iff, require_ok, expect_ok, exists_const] at hq ⊢
    obtain ⟨hshape, _, hk', _, hcap', host, hhost, hready, _, hpayload', hq⟩ := hq
    obtain rfl := Option.some.inj (hk.symm.trans hk')
    obtain rfl := Option.some.inj (hcap.symm.trans hcap')
    obtain rfl := Option.some.inj (hpayload.symm.trans hpayload')
    refine ⟨hshape, _, hk, _, hcap, host, hhost, hready, payload, hpayload, ?_⟩
    split at hq
    · exact hq
    · simp only [DB.commitNewReport, bind_ok_iff, require_ok, exists_const] at hq ⊢
      obtain ⟨hnext, e₁, hvalid, u, hadm, -, hopen, s₁, h₁, s₂, h₂, hr⟩ := hq
      obtain rfl := Except.ok.inj (hdec.symm.trans (validateReportPayload_decoded hvalid))
      have hdiag : (decide (kind = .progress)) = false := decide_eq_false hkind
      rw [hdiag] at hadm ⊢
      refine ⟨hnext, e₀, hvalid, u, hres.admits hc hfitRun hfitUser hadm, ?_, hopen, s₁, h₁, s₂, h₂,
        hr⟩
      refine not_or.mpr ⟨?_, fun hp => hkind hp.1⟩
      rw [hm c (Table.find?_eq_some.mp hcap).1]
      exact hres.fits hc hfitCap
  · intro e r hfitRun hfitUser hq
    simp only [DB.commitHostEvent, bind_ok_iff, require_ok, expect_ok, exists_const] at hq ⊢
    obtain ⟨hwf, host, hhost, hepoch, hq⟩ := hq
    refine ⟨hwf, host, hhost, hepoch, ?_⟩
    split at hq
    · exact hq
    · simp only [DB.commitNew, bind_ok_iff, require_ok, expect_ok, exists_const] at hq ⊢
      obtain ⟨hnext, incoming, hin, u, hadm, g, hg, hbound, hrest⟩ := hq
      have hin' : d.incomingBytes e = .ok incoming := hin
      rw [(incomingBytes_ok hin').1] at hadm
      refine ⟨hnext, incoming, hin', u, ?_, g, hg, hbound, hrest⟩
      rw [(incomingBytes_ok hin').1]
      exact hres.admits hc hfitRun hfitUser hadm

end Usage

/-- A store of small quotas, whose workers send progress. -/
def smallDB : DB := { toyDB with
  decodeProgress := fun _ => some ⟨"checkpoint", 1, 1⟩
  runControlLimit := 16384
  userControlLimit := 16384
  reportControlLimit := 16384
  runProgressLimit := 4096
  userProgressLimit := 4096
  reportProgressLimit := 4096 }

/-- The worker of claim `n` reports progress. -/
def toyProgress (n : Nat) (sequence : Int) : Op :=
  .commitReportEvent (toyEnv 30) ⟨none, none, false, none, none, true, ""⟩
    { capabilityId := "report-capability-" ++ toString n
      token := "token"
      eventId := "progress-" ++ toString sequence
      sequence := sequence
      kind := "progress"
      payload := "progress" }

/-- The worker of `a` has sent all the progress it may. -/
def progressOps : List Op :=
  toyStart [toyTask "a" 2 []] ++ [toyClaim 11, toyCommit "a" 11 1 .prepared,
    toyCommit "a" 11 2 .spawned, toyCommit "a" 11 3 .running, toyRegister "a" 11,
    toyProgress 11 1, toyProgress 11 2, toyProgress 11 3, toyProgress 11 4]

/-- The next progress is refused, and the exit of the worker is not. -/
theorem exit_after_progress :
    (smallDB.exec (smallDB.run (State.fresh {}) progressOps) (toyProgress 11 5)).isOk = false ∧
      (smallDB.commitHostEvent (toyEnv 10) (smallDB.run (State.fresh {}) progressOps)
        (toyEvent "a" 11 4 .exited)).isOk = true := by
  have hfacts : (smallDB.exec (smallDB.run (State.fresh {}) progressOps)
        (toyProgress 11 5)).isOk = false ∧
      smallDB.reserveHolds (smallDB.run (State.fresh {}) progressOps) (.run "run") 1024 ∧
      smallDB.reserveHolds (smallDB.run (State.fresh {}) progressOps) .global 1024 ∧
      ((smallDB.withQuota ⟨65536, 65536, 0, 0, 0, 0⟩).commitHostEvent (toyEnv 10)
        (smallDB.run (State.fresh {}) progressOps) (toyEvent "a" 11 4 .exited)).isOk = true := by
    unfold DB.reserveHolds
    decide +kernel
  obtain ⟨hrefused, hrun, huser, hother⟩ := hfacts
  obtain ⟨r, hr⟩ := exists_of_isOk hother
  refine ⟨hrefused, ?_⟩
  rw [(progress_spares_reserve (d := smallDB) (by decide) (by decide) (by decide)
    (⟨progressOps, rfl⟩ : smallDB.Reachable {} _) ⟨65536, 65536, 0, 0, 0, 0⟩ (toyEnv 10)).2
    (toyEvent "a" 11 4 .exited) r hrun huser hr]
  rfl

end Orchestrator.Store
