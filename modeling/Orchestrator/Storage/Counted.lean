import Orchestrator.Storage.Accepted

/-!
# The counters equal the rows

`Counted` ties every counter to the rows of its scope. A migration establishes
it, statements keep it by their triggers, and so do the store's operations,
whose inserts charge what the insert triggers charge.
-/
namespace Orchestrator.Store
open Library

/-! ## What a scope holds -/

def State.eventIn (s : State) : Scope → RuntimeEvent → Bool
  | .global, _ => true
  | .run id, r => s.taskRun r.taskId = some id
  | .capability _, _ => false

def State.reportIn (s : State) : Scope → ReportEvent → Bool
  | .global, _ => true
  | .run id, r => s.capabilityRun r.capabilityId = some id
  | .capability id, r => r.capabilityId = id

/-- Total and progress bytes of the rows of a scope. -/
def DB.storedBytes (d : DB) (s : State) (scope : Scope) : Int × Int :=
  let reports := s.reportEvents.rows.filter (s.reportIn scope)
  (total (fun r => d.runtimeStoredBytes r.body)
      (s.runtimeEvents.rows.filter (s.eventIn scope)) + total ReportEvent.accountedBytes reports,
    total ReportEvent.progressBytes reports)

def DB.eventValue (d : DB) (s : State) (r : RuntimeEvent) : Scope → Int × Int :=
  total Charge.value (d.eventCharges s r)

def State.reportValue (s : State) (r : ReportEvent) : Scope → Int × Int :=
  total Charge.value (s.reportCharges r)

section Values
variable {d : DB} {s : State} {scope : Scope}

theorem eventValue_apply (r : RuntimeEvent) : d.eventValue s r scope =
    if s.eventIn scope r = true then (d.runtimeStoredBytes r.body, 0) else 0 := by
  simp only [DB.eventValue, DB.eventCharges, total_cons, total_nil, add_zero, Pi.add_apply,
    Charge.value]
  cases scope with
  | global => cases s.taskRun r.taskId <;> simp [State.eventIn]
  | run id => cases h : s.taskRun r.taskId <;> simp [State.eventIn, h]
  | capability id => cases s.taskRun r.taskId <;> simp [State.eventIn]

theorem reportValue_apply (r : ReportEvent) : s.reportValue r scope =
    if s.reportIn scope r = true then r.bytes else 0 := by
  simp only [State.reportValue, State.reportCharges, total_cons, total_nil, add_zero, Pi.add_apply,
    Charge.value, ReportEvent.bytes]
  cases scope with
  | global => cases s.capabilityRun r.capabilityId <;> simp [State.reportIn]
  | run id => cases h : s.capabilityRun r.capabilityId <;> simp [State.reportIn, h]
  | capability id => cases s.capabilityRun r.capabilityId <;> simp [State.reportIn]

theorem total_apply {α : Type} (w : α → Scope → Int × Int) (rows : List α) :
    total w rows scope = total (fun r => w r scope) rows := by
  induction rows with
  | nil => rfl
  | cons r rows ih => rw [total_cons, total_cons, Pi.add_apply, ih]

theorem total_fst {α : Type} (w : α → Int × Int) (rows : List α) :
    (total w rows).1 = total (fun r => (w r).1) rows := by
  induction rows with
  | nil => rfl
  | cons r rows ih => rw [total_cons, total_cons, Prod.fst_add, ih]

theorem total_snd {α : Type} (w : α → Int × Int) (rows : List α) :
    (total w rows).2 = total (fun r => (w r).2) rows := by
  induction rows with
  | nil => rfl
  | cons r rows ih => rw [total_cons, total_cons, Prod.snd_add, ih]

/-- The rows of a scope are those charged to it. -/
theorem storedBytes_eq : (total (d.eventValue s) s.runtimeEvents.rows +
    total s.reportValue s.reportEvents.rows) scope = d.storedBytes s scope := by
  rw [Pi.add_apply, total_apply, total_apply]
  simp only [eventValue_apply, reportValue_apply, total_ite]
  refine Prod.ext ?_ ?_
  · rw [Prod.fst_add, total_fst, total_fst]
    rfl
  · rw [Prod.snd_add, total_snd, total_snd]
    have hzero : ∀ rows : List RuntimeEvent, total (fun _ => (0 : Int)) rows = 0 := by
      intro rows
      induction rows with
      | nil => rfl
      | cons r rows ih => rw [total_cons, ih, add_zero]
    rw [hzero, zero_add]
    rfl

end Values

/-! ## The invariant -/

structure Counted (d : DB) (s : State) : Prop where
  equal : readUsage s.storageUsage =
    total (d.eventValue s) s.runtimeEvents.rows + total s.reportValue s.reportEvents.rows
  valid : Valid s.storageUsage
  events : ∀ r ∈ s.runtimeEvents, Covered s.storageUsage (d.eventCharges s r)
  reports : ∀ r ∈ s.reportEvents, Covered s.storageUsage (s.reportCharges r)
  segments : ∀ g ∈ s.segments, (s.taskRun g.taskId).isSome = true

section Tables
variable {d : DB} {s s' : State} {e : Event}

theorem Counted.eventTally (h : Counted d s) : Tallied (d.eventCharges s) s.runtimeEvents.rows
    (total s.reportValue s.reportEvents.rows) s.storageUsage :=
  ⟨h.equal, h.valid, h.events⟩

theorem Counted.reportTally (h : Counted d s) : Tallied s.reportCharges s.reportEvents.rows
    (total (d.eventValue s) s.runtimeEvents.rows) s.storageUsage :=
  ⟨h.equal.trans (add_comm _ _), h.valid, h.reports⟩

/-- The counters a change of the event rows leaves. -/
theorem Counted.ofEvents (h : Counted d s) {events : Table RuntimeEvent.eventId}
    {usage : Table StorageUsage.scope}
    (ht : Tallied (d.eventCharges s) events.rows (total s.reportValue s.reportEvents.rows) usage)
    (hk : ∀ x, Held s.storageUsage x → Held usage x) :
    Counted d { s with runtimeEvents := events, storageUsage := usage } :=
  ⟨ht.equal, ht.valid, ht.covered, fun r hr => (h.reports r hr).mono hk, h.segments⟩

theorem Counted.ofReports (h : Counted d s) {reports : Table ReportEvent.eventId}
    {usage : Table StorageUsage.scope}
    (ht : Tallied s.reportCharges reports.rows (total (d.eventValue s) s.runtimeEvents.rows) usage)
    (hk : ∀ x, Held s.storageUsage x → Held usage x) :
    Counted d { s with reportEvents := reports, storageUsage := usage } :=
  ⟨ht.equal.trans (add_comm _ _), ht.valid, fun r hr => (h.events r hr).mono hk, ht.covered,
    h.segments⟩

/-! ## Statements -/

theorem EventUpdate.charges {u : EventUpdate} (h : ¬ u.fires) (r : RuntimeEvent) :
    d.eventCharges s (u.set r) = d.eventCharges s r := by
  obtain ⟨hb, ht⟩ := not_or.mp h
  simp only [DB.eventCharges, u.body hb, u.task ht]

theorem ReportUpdate.charges {u : ReportUpdate} (h : ¬ u.fires) (r : ReportEvent) :
    s.reportCharges (u.set r) = s.reportCharges r := by
  obtain ⟨ha, h⟩ := not_or.mp h
  obtain ⟨hk, hc⟩ := not_or.mp h
  simp only [State.reportCharges, ReportEvent.progressBytes, u.accounted ha, u.kind hk,
    u.capability hc]

/-- Every statement keeps the counters. -/
theorem Counted.execute (h : Counted d s) {st : Statement} (hx : d.execute s st = .ok s') :
    Counted d s' := by
  cases st with
  | insertEvent r =>
    simp only [DB.execute, bind_ok_iff, expect_ok, require_ok, exists_const,
      Except.ok.injEq] at hx
    obtain ⟨events, hi, -, usage, hu, rfl⟩ := hx
    obtain ⟨ht, hk⟩ := h.eventTally.insert hu
    exact h.ofEvents (Table.rows_insert hi ▸ ht) hk
  | updateEvents u =>
    simp only [DB.execute, bind_ok_iff, expect_ok, require_ok, exists_const,
      Except.ok.injEq] at hx
    obtain ⟨events, hi, -, usage, hu, rfl⟩ := hx
    have hrows := Table.rows_rewrite hi
    unfold onUpdates at hu
    split at hu
    · obtain ⟨ht, hk⟩ := h.eventTally.update hu
      exact h.ofEvents (hrows ▸ ht) hk
    · rename_i hfires
      cases hu
      exact h.ofEvents (hrows ▸ h.eventTally.rewrite (EventUpdate.charges hfires)) fun _ hx => hx
  | deleteEvents selects =>
    simp only [DB.execute, bind_ok_iff, Except.ok.injEq] at hx
    obtain ⟨usage, hu, rfl⟩ := hx
    obtain ⟨ht, hk⟩ := h.eventTally.delete hu
    exact h.ofEvents ht hk
  | insertReport r =>
    simp only [DB.execute, bind_ok_iff, expect_ok, require_ok, exists_const,
      Except.ok.injEq] at hx
    obtain ⟨reports, hi, -, usage, hu, rfl⟩ := hx
    obtain ⟨ht, hk⟩ := h.reportTally.insert hu
    exact h.ofReports (Table.rows_insert hi ▸ ht) hk
  | updateReports u =>
    simp only [DB.execute, bind_ok_iff, expect_ok, require_ok, exists_const,
      Except.ok.injEq] at hx
    obtain ⟨reports, hi, -, usage, hu, rfl⟩ := hx
    have hrows := Table.rows_rewrite hi
    unfold onUpdates at hu
    split at hu
    · obtain ⟨ht, hk⟩ := h.reportTally.update hu
      exact h.ofReports (hrows ▸ ht) hk
    · rename_i hfires
      cases hu
      exact h.ofReports (hrows ▸ h.reportTally.rewrite (ReportUpdate.charges hfires)) fun _ hx => hx
  | deleteReports selects =>
    simp only [DB.execute, bind_ok_iff, Except.ok.injEq] at hx
    obtain ⟨usage, hu, rfl⟩ := hx
    obtain ⟨ht, hk⟩ := h.reportTally.delete hu
    exact h.ofReports ht hk

end Tables

/-! ## Operations -/

section Operations
variable {d : DB} {env : Env} {s s' : State} {op : Op} {e : Event}

theorem taskRun_stable (h : s.tasks.rows.map Task.static <+: s'.tasks.rows.map Task.static)
    {taskId runId : String} (hr : s.taskRun taskId = some runId) :
    s'.taskRun taskId = some runId := by
  obtain ⟨t, ht, rfl⟩ := Option.map_eq_some_iff.mp hr
  obtain ⟨hm, rfl⟩ := Table.find?_eq_some.mp ht
  obtain ⟨t', ht', hst⟩ := mem_of_map_prefix h hm
  have hfind : s'.tasks.find? t.id = some t' :=
    Table.find?_eq_some.mpr ⟨ht', Task.static_id hst⟩
  rw [State.taskRun, hfind, Option.map_some, Task.static_runId hst]

theorem capabilityRun_stable
    (h : s.reportCapabilities.rows.map ReportCapability.static <+:
      s'.reportCapabilities.rows.map ReportCapability.static)
    {capabilityId runId : String} (hr : s.capabilityRun capabilityId = some runId) :
    s'.capabilityRun capabilityId = some runId := by
  obtain ⟨c, hc, rfl⟩ := Option.map_eq_some_iff.mp hr
  obtain ⟨hm, rfl⟩ := Table.find?_eq_some.mp hc
  obtain ⟨c', hc', hst⟩ := mem_of_map_prefix h hm
  have hid : c'.capabilityId = c.capabilityId := (congrArg ReportCapability.capabilityId hst :)
  have hrun : c'.runId = c.runId := (congrArg ReportCapability.runId hst :)
  have hfind : s'.reportCapabilities.find? c.capabilityId = some c' :=
    Table.find?_eq_some.mpr ⟨hc', hid⟩
  rw [State.capabilityRun, hfind, Option.map_some, hrun]

theorem Counted.event_run (h : Counted d s) {r : RuntimeEvent} (hr : r ∈ s.runtimeEvents) :
    ∃ runId, s.taskRun r.taskId = some runId := by
  obtain ⟨x, hx, -⟩ := h.events r hr ⟨(s.taskRun r.taskId).map .run, d.runtimeStoredBytes r.body, 0⟩
    (by simp [DB.eventCharges])
  obtain ⟨runId, hrun, -⟩ := Option.map_eq_some_iff.mp hx
  exact ⟨runId, hrun⟩

theorem Counted.report_run (h : Counted d s) {r : ReportEvent} (hr : r ∈ s.reportEvents) :
    ∃ runId, s.capabilityRun r.capabilityId = some runId := by
  obtain ⟨x, hx, -⟩ := h.reports r hr
    ⟨(s.capabilityRun r.capabilityId).map .run, r.accountedBytes, r.progressBytes⟩
    (by simp [State.reportCharges])
  obtain ⟨runId, hrun, -⟩ := Option.map_eq_some_iff.mp hx
  exact ⟨runId, hrun⟩

/-- Charges read a row's part that is counted, and the run of its task, which lasts. -/
theorem eventCharges_congr {r r' : RuntimeEvent} (hst : r'.stored = r.stored)
    (hrun : s'.taskRun r.taskId = s.taskRun r.taskId) :
    d.eventCharges s' r' = d.eventCharges s r := by
  obtain ⟨hid, hbody⟩ := Prod.mk.inj hst
  rw [DB.eventCharges, hid, hbody, hrun]
  rfl

theorem reportCharges_congr {r r' : ReportEvent} (hst : r'.account = r.account)
    (hrun : s'.capabilityRun r.capabilityId = s.capabilityRun r.capabilityId) :
    s'.reportCharges r' = s.reportCharges r := by
  obtain ⟨hid, hkb⟩ := Prod.mk.inj hst
  obtain ⟨hkind, hbytes⟩ := Prod.mk.inj hkb
  simp only [State.reportCharges, ReportEvent.progressBytes, hid, hkind, hbytes, hrun]

theorem total_of_forall₂ {α M : Type} [AddCommGroup M] {w w' : α → M} {l l' : List α}
    (h : List.Forall₂ (fun a b => w' b = w a) l l') : total w' l' = total w l := by
  induction h with
  | nil => rfl
  | cons hab _ ih => rw [total_cons, total_cons, hab, ih]

theorem forall₂_of_map_eq {α β : Type} {π : α → β} {l l' : List α} (h : l'.map π = l.map π) :
    List.Forall₂ (fun a b => a ∈ l ∧ π b = π a) l l' := by
  induction l generalizing l' with
  | nil =>
    rw [List.map_nil, List.map_eq_nil_iff] at h
    rw [h]
    exact .nil
  | cons a l ih =>
    obtain ⟨b, m, rfl, hb, hm⟩ := List.map_eq_cons_iff.mp h
    refine .cons ⟨List.mem_cons_self, hb⟩ ((ih hm).imp ?_)
    rintro x y ⟨hx, hy⟩
    exact ⟨List.mem_cons_of_mem a hx, hy⟩

/-- Where what is counted stays and runs last, the counters stay right. -/
theorem Counted.carry (h : Counted d s)
    (htasks : s.tasks.rows.map Task.static <+: s'.tasks.rows.map Task.static)
    (hcaps : s.reportCapabilities.rows.map ReportCapability.static <+:
      s'.reportCapabilities.rows.map ReportCapability.static)
    (hevents : s'.runtimeEvents.rows.map RuntimeEvent.stored =
      s.runtimeEvents.rows.map RuntimeEvent.stored)
    (hreports : s'.reportEvents.rows.map ReportEvent.account =
      s.reportEvents.rows.map ReportEvent.account)
    (husage : s'.storageUsage = s.storageUsage)
    (hsegments : ∀ g ∈ s'.segments, (s'.taskRun g.taskId).isSome = true) : Counted d s' := by
  have hev : List.Forall₂ (fun r r' => r ∈ s.runtimeEvents ∧
      d.eventCharges s' r' = d.eventCharges s r) s.runtimeEvents.rows s'.runtimeEvents.rows := by
    refine (forall₂_of_map_eq hevents).imp ?_
    rintro r r' ⟨hr, hst⟩
    obtain ⟨runId, hrun⟩ := h.event_run hr
    exact ⟨hr, eventCharges_congr hst (by rw [taskRun_stable htasks hrun, hrun])⟩
  have hrep : List.Forall₂ (fun r r' => r ∈ s.reportEvents ∧
      s'.reportCharges r' = s.reportCharges r) s.reportEvents.rows s'.reportEvents.rows := by
    refine (forall₂_of_map_eq hreports).imp ?_
    rintro r r' ⟨hr, hst⟩
    obtain ⟨runId, hrun⟩ := h.report_run hr
    exact ⟨hr, reportCharges_congr hst (by rw [capabilityRun_stable hcaps hrun, hrun])⟩
  refine ⟨?_, husage ▸ h.valid, fun r' hr' => ?_, fun r' hr' => ?_, hsegments⟩
  · rw [husage, h.equal]
    congr 1
    · exact (total_of_forall₂ (hev.imp fun r r' hx => by
        rw [DB.eventValue, hx.2, DB.eventValue])).symm
    · exact (total_of_forall₂ (hrep.imp fun r r' hx => by
        rw [State.reportValue, hx.2, State.reportValue])).symm
  · obtain ⟨r, -, hr, hc⟩ := forall₂_right hev hr'
    rw [husage, hc]
    exact h.events r hr
  · obtain ⟨r, -, hr, hc⟩ := forall₂_right hrep hr'
    rw [husage, hc]
    exact h.reports r hr

/-- An event is charged as the insert trigger charges its row. -/
theorem appendEvent_trigger {runId : String} (hv : Valid s.storageUsage)
    (hrun : s.taskRun e.taskId = some runId) (h0 : 0 ≤ d.runtimeStoredBytes e) :
    onInsert (d.eventCharges s) s.storageUsage (d.runtimeEventRow e) = .ok (d.chargeEvent s e) := by
  have h₁ : credit s.storageUsage ⟨some .global, d.runtimeStoredBytes e, 0⟩ = .ok _ :=
    credit_ok rfl hv ⟨le_refl _, h0⟩
  have h₂ : credit _ ⟨some (.run runId), d.runtimeStoredBytes e, 0⟩ = .ok _ :=
    credit_ok rfl (credit_spec h₁ hv).1 ⟨le_refl _, h0⟩
  have hname : ((s.tasks.find? e.taskId).map Task.runId).getD "" = runId := by
    rw [show (s.tasks.find? e.taskId).map Task.runId = s.taskRun e.taskId from rfl, hrun,
      Option.getD_some]
  simp only [onInsert, DB.eventCharges, DB.runtimeEventRow, hrun, Option.map_some, List.foldlM_cons,
    List.foldlM_nil, h₁, h₂, ok_bind, DB.chargeEvent, hname]
  rfl

/-- A report is charged as the insert trigger charges its row. -/
theorem appendReport_trigger {c : ReportCapability} {spec : ReportEventSpec} {kind : ReportKind}
    {payloadHash : String} (hv : Valid s.storageUsage)
    (hrun : s.capabilityRun spec.capabilityId = some c.runId) (h0 : 0 ≤ d.accountedBytes kind e)
    (h : d.appendReport s c spec kind payloadHash e = .ok s') :
    onInsert s.reportCharges s.storageUsage (d.reportRow spec kind payloadHash e) =
      .ok s'.storageUsage := by
  simp only [DB.appendReport, bind_ok_iff, require_ok, expect_ok, exists_const,
    Except.ok.injEq] at h
  obtain ⟨-, events, -, order, -, rfl⟩ := h
  have hp : 0 ≤ (d.reportRow spec kind payloadHash e).progressBytes ∧
      (d.reportRow spec kind payloadHash e).progressBytes ≤ d.accountedBytes kind e := by
    unfold ReportEvent.progressBytes
    split
    · exact ⟨h0, le_refl _⟩
    · exact ⟨le_refl _, h0⟩
  have h₁ := credit_ok (c := ⟨some .global, d.accountedBytes kind e,
    (d.reportRow spec kind payloadHash e).progressBytes⟩) rfl hv hp
  have hv₁ := (credit_spec h₁ hv).1
  have h₂ := credit_ok (c := ⟨some (.run c.runId), d.accountedBytes kind e,
    (d.reportRow spec kind payloadHash e).progressBytes⟩) rfl hv₁ hp
  have hv₂ := (credit_spec h₂ hv₁).1
  have h₃ := credit_ok (c := ⟨some (.capability spec.capabilityId), d.accountedBytes kind e,
    (d.reportRow spec kind payloadHash e).progressBytes⟩) rfl hv₂ hp
  have hcap : (d.reportRow spec kind payloadHash e).capabilityId = spec.capabilityId := rfl
  have hbytes : (d.reportRow spec kind payloadHash e).accountedBytes = d.accountedBytes kind e :=
    rfl
  simp only [onInsert, State.reportCharges, hcap, hbytes, hrun, Option.map_some, List.foldlM_cons,
    List.foldlM_nil, h₁, h₂, h₃, ok_bind]
  rfl

theorem Counted.appendEvent (h : Counted d s) {s₁ : State}
    (hrun : (s.taskRun e.taskId).isSome = true) (h0 : 0 ≤ d.runtimeStoredBytes e)
    (h₁ : d.appendEvent s e = .ok s₁) : Counted d s₁ := by
  obtain ⟨runId, hrun⟩ := Option.isSome_iff_exists.mp hrun
  obtain ⟨ht, hk⟩ := h.eventTally.insert (appendEvent_trigger h.valid hrun h0)
  simp only [DB.appendEvent, bind_ok_iff, expect_ok, Except.ok.injEq] at h₁
  obtain ⟨events, hi, order, -, rfl⟩ := h₁
  have hc := h.ofEvents (Table.rows_insert hi ▸ ht) hk
  exact ⟨hc.equal, hc.valid, hc.events, hc.reports, hc.segments⟩

theorem Counted.appendReport (h : Counted d s) {s₁ : State} {c : ReportCapability}
    {spec : ReportEventSpec} {kind : ReportKind} {payloadHash : String}
    (hc : c ∈ s.reportCapabilities) (hid : c.capabilityId = spec.capabilityId)
    (h0 : 0 ≤ d.accountedBytes kind e)
    (h₁ : d.appendReport s c spec kind payloadHash e = .ok s₁) : Counted d s₁ := by
  have hrun : s.capabilityRun spec.capabilityId = some c.runId := by
    rw [State.capabilityRun, Table.find?_eq_some.mpr ⟨hc, hid⟩, Option.map_some]
  obtain ⟨ht, hk⟩ := h.reportTally.insert (appendReport_trigger h.valid hrun h0 h₁)
  obtain ⟨hrows, -⟩ := appendReport_rows h₁
  have hr := h.ofReports (hrows ▸ ht) hk
  obtain ⟨row, events, order, usage, -, -, -, rfl⟩ := appendReport_frame h₁
  refine hr.carry List.prefix_rfl ?_ rfl rfl rfl hr.segments
  exact prefix_of_map_eq
    (map_static_update (h := by intro _; rfl) ReportCapability.static fun _ => rfl)

theorem segments_of_roster {c c' : State} (h : Roster c.toCore c'.toCore)
    (hc : ∀ g ∈ c.segments, (c.taskRun g.taskId).isSome = true) :
    ∀ g ∈ c'.segments, (c'.taskRun g.taskId).isSome = true := by
  intro g' hg'
  obtain ⟨g, hg, -, hst⟩ := mem_of_map_eq h.segments hg'
  obtain ⟨runId, hrun⟩ := Option.isSome_iff_exists.mp (hc g hg)
  rw [Segment.static_taskId hst, taskRun_stable (h.tasks ▸ List.prefix_rfl) hrun]
  rfl

/-- Every accepted operation keeps the counters. -/
theorem Counted.exec (h : Counted d s) (hx : d.exec s op = .ok s') : Counted d s' := by
  have hw := exec_writes hx
  by_cases hop : op.commits = false
  · obtain ⟨husage, hevents, hreports⟩ := hw.uncounted hop
    refine h.carry hw.tasks hw.capabilities hevents hreports husage fun g' hg' => ?_
    obtain ⟨g, hg, hst⟩ | ⟨t, ht, hid⟩ := hw.segment_of hg'
    · obtain ⟨runId, hrun⟩ := Option.isSome_iff_exists.mp (h.segments g hg)
      rw [Segment.static_taskId hst, taskRun_stable hw.tasks hrun]
      rfl
    · have hrun : s.taskRun g'.taskId = some t.runId := by
        rw [State.taskRun, Table.find?_eq_some.mpr ⟨ht, hid⟩, Option.map_some]
      rw [taskRun_stable hw.tasks hrun]
      rfl
  · cases op <;> simp only [Op.commits, not_true, not_false_eq_true, Bool.true_eq_false] at hop
    case commitHostEvent env e =>
      simp only [DB.exec, committed_ok] at hx
      obtain ⟨ack, hx⟩ := hx
      obtain rfl | ⟨-, -, h0, ⟨g, hg, hid, hbound⟩, s₁, h₁, h₂⟩ := commitHostEvent_recorded hx
      · exact h
      · have hc := h.appendEvent (hbound.2.2.1 ▸ h.segments g hg) h0 h₁
        have hr := applyEvent_roster h₂
        obtain ⟨husage, hevents, hcaps, hreports⟩ := applyEvent_uncounted h₂
        exact hc.carry (hr.tasks ▸ List.prefix_rfl) (hcaps ▸ List.prefix_rfl) (by rw [hevents])
          hreports husage (segments_of_roster hr hc.segments)
    case commitReportEvent env probe spec =>
      simp only [DB.exec, committed_ok] at hx
      obtain ⟨ack, hx⟩ := hx
      obtain rfl | ⟨c, kind, payloadHash, e, hf⟩ := commitReportEvent_filed hx
      · exact h
      · obtain ⟨s₁, h₁, h₂⟩ := hf.applied
        have hc := h.appendReport hf.capability hf.named hf.accounted h₁
        have hr := askReported_roster h₂
        have hsegments := segments_of_roster hr hc.segments
        obtain ⟨core, questions, stops, rfl⟩ := askReported_frame h₂
        exact hc.carry (hr.tasks ▸ List.prefix_rfl) List.prefix_rfl rfl rfl rfl hsegments

end Operations
end Orchestrator.Store
