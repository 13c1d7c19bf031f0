import Orchestrator.Storage.Counted

/-!
# Counters from the first migration on

A database of any earlier version comes out of the migration counted, and stays
so whatever is done to its two event tables: by the store's operations, by
statements of SQL, committed or rolled back.
-/
namespace Orchestrator.Store
open Library

/-! ## The backfill -/

section Backfill
variable {d : DB} {s : State}

theorem readUsage_zeroUsage : readUsage s.zeroUsage = 0 := by
  funext x
  by_cases hx : Held s.zeroUsage x
  · obtain ⟨u, hu, rfl⟩ := hx
    rw [readUsage_of_mem hu]
    obtain ⟨y, -, rfl⟩ := List.mem_map.mp hu
    rfl
  · exact readUsage_of_not_held hx

theorem valid_zeroUsage : Valid s.zeroUsage := by
  intro u hu
  obtain ⟨y, -, rfl⟩ := List.mem_map.mp hu
  exact ⟨le_refl _, le_refl _, le_refl _⟩

theorem total_pair {α : Type} (w : α → Int) (rows : List α) :
    total (fun r => ((w r, 0) : Int × Int)) rows = (total w rows, 0) := by
  induction rows with
  | nil => rfl
  | cons r rows ih => rw [total_cons, ih, total_cons, Prod.mk_add_mk, add_zero]

theorem total_zero {α : Type} (rows : List α) : total (fun _ => (0 : Int × Int)) rows = 0 := by
  induction rows with
  | nil => rfl
  | cons r rows ih => rw [total_cons, ih, add_zero]

/-- The five aggregates add up to the rows of each scope. -/
theorem total_backfill (x : Scope) :
    total Charge.value (d.backfill s) x = d.storedBytes s x := by
  simp only [DB.backfill, total_append, total_cons, total_nil, add_zero, total_map,
    total_apply]
  cases x with
  | global =>
    simp only [Charge.value, Option.some.injEq, reduceCtorEq, if_true, if_false, total_zero,
      add_zero]
    have hevents : s.runtimeEvents.rows.filter (s.eventIn .global) = s.runtimeEvents.rows :=
      List.filter_eq_self.mpr fun _ _ => rfl
    have hreports : s.reportEvents.rows.filter (s.reportIn .global) = s.reportEvents.rows :=
      List.filter_eq_self.mpr fun _ _ => rfl
    refine Prod.ext ?_ ?_
    · simp only [Prod.fst_add, DB.storedBytes, hevents, hreports, total_fst, ReportEvent.bytes]
    · simp only [Prod.snd_add, DB.storedBytes, hreports, total_snd, ReportEvent.bytes, zero_add]
  | run id =>
    simp only [Charge.value, Option.some.injEq, Scope.run.injEq, reduceCtorEq, if_false, total_zero,
      zero_add, add_zero]
    have hevents := total_groupTotals (fun r : RuntimeEvent => s.taskRun r.taskId)
      (fun r => d.runtimeStoredBytes r.body) s.runtimeEvents.rows id
    have hreports := total_groupTotals (fun r : ReportEvent => s.capabilityRun r.capabilityId)
      ReportEvent.bytes s.reportEvents.rows id
    have hpair : (fun g : String × Int => if g.1 = id then ((g.2, 0) : Int × Int) else 0) =
        fun g => ((if g.1 = id then g.2 else 0, 0) : Int × Int) := by
      funext g
      split <;> rfl
    have hbytes : (fun g : String × (Int × Int) => if g.1 = id then (g.2.1, g.2.2) else 0) =
        fun g => if g.1 = id then g.2 else 0 := rfl
    rw [hpair, total_pair, hevents, hbytes, hreports]
    refine Prod.ext ?_ ?_
    · rw [Prod.fst_add, total_fst]
      rfl
    · rw [Prod.snd_add, total_snd, zero_add]
      rfl
  | capability id =>
    simp only [Charge.value, Option.some.injEq, Scope.capability.injEq, reduceCtorEq, if_false,
      total_zero, zero_add, add_zero]
    have hreports := total_groupTotals (fun r : ReportEvent => some r.capabilityId)
      ReportEvent.bytes s.reportEvents.rows id
    have hbytes : (fun g : String × (Int × Int) => if g.1 = id then (g.2.1, g.2.2) else 0) =
        fun g => if g.1 = id then g.2 else 0 := rfl
    have hnone : s.runtimeEvents.rows.filter (s.eventIn (.capability id)) = [] :=
      List.filter_eq_nil_iff.mpr fun _ _ h => Bool.noConfusion h
    have hin : s.reportEvents.rows.filter (fun r => some r.capabilityId = some id) =
        s.reportEvents.rows.filter (s.reportIn (.capability id)) :=
      List.filter_congr fun r _ => by simp [State.reportIn]
    rw [hbytes, hreports, hin]
    refine Prod.ext ?_ ?_
    · simp only [DB.storedBytes, hnone, total_nil, zero_add, total_fst]
      rfl
    · simp only [DB.storedBytes, total_snd]
      rfl

end Backfill

/-! ## Migrated databases -/

/-- The foreign keys the charges follow. -/
structure Referential (s : State) : Prop where
  events : s.eventReferences s.runtimeEvents
  reports : s.reportReferences s.reportEvents
  segments : ∀ g ∈ s.segments, (s.taskRun g.taskId).isSome = true

section Migrate
variable {d : DB} {s s' : State}

theorem Legacy.referential (old : Legacy) : Referential old.tables := by
  refine ⟨old.events, old.reports, fun g hg => ?_⟩
  obtain ⟨t, ht, hid⟩ := old.segments g hg
  rw [State.taskRun, Table.find?_eq_some.mpr ⟨ht, hid⟩]
  rfl

/-- Rewriting reports but for their capability breaks no foreign key. -/
theorem Referential.updateReports (h : Referential s) {p : ReportEvent → Bool}
    {f : ReportEvent → ReportEvent} (hf : ∀ r, (f r).eventId = r.eventId)
    (hc : ∀ r, (f r).capabilityId = r.capabilityId) :
    Referential { s with reportEvents := s.reportEvents.update p f hf } := by
  refine ⟨h.events, fun r' hr' => ?_, h.segments⟩
  obtain ⟨r, hr, rfl⟩ := (Table.mem_update (h := hf)).mp hr'
  have hcap := Table.patch_field (p := p) ReportEvent.capabilityId hc r
  change (s.capabilityRun (Table.patch p f r).capabilityId).isSome = true
  rw [hcap]
  exact h.reports r hr

theorem Referential.recount (h : Referential s) : Referential (d.recount s) := by
  have hr := h.updateReports (p := fun _ => true)
    (f := fun r : ReportEvent => { r with
      accountedBytes := max r.accountedBytes (d.encodedLen r.body) +
        (r.body.artifact.map (·.size)).getD 0 }) (fun _ => rfl) fun _ => rfl
  refine ⟨hr.events, fun r hm => ?_, hr.segments⟩
  obtain ⟨runId, hrun⟩ := Option.isSome_iff_exists.mp (hr.reports r hm)
  have hahead : s.reportCapabilities.rows.map ReportCapability.static <+:
      (d.recount s).reportCapabilities.rows.map ReportCapability.static :=
    prefix_of_map_eq (map_static_update (h := by intro _; rfl) ReportCapability.static fun _ => rfl)
  rw [capabilityRun_stable hahead hrun]
  rfl

theorem migrateStorageUsage_counted (h : Referential s) (hm : d.migrateStorageUsage s = .ok s') :
    Counted d s' := by
  simp only [DB.migrateStorageUsage, bind_ok_iff, Except.ok.injEq] at hm
  obtain ⟨usage, hu, rfl⟩ := hm
  have hr : Referential (d.recount s) := h.recount
  generalize d.recount s = s at hr hu
  obtain ⟨hv, -, hc, hread⟩ := credits_spec hu valid_zeroUsage
  rw [readUsage_zeroUsage, zero_add] at hread
  have hheld : ∀ c ∈ d.backfill s, ∀ x, c.scope = some x → Held usage x := by
    intro c hcm x hx
    obtain ⟨y, hy, hheld⟩ := hc c hcm
    rw [hy, Option.some.injEq] at hx
    exact hx ▸ hheld
  have hglobal : Held usage .global := hheld _ (by simp [DB.backfill]; exact .inl rfl) _ rfl
  refine ⟨?_, hv, fun r hrm => ?_, fun r hrm => ?_, hr.segments⟩
  · funext x
    exact (congrFun hread x).trans ((total_backfill x).trans (storedBytes_eq (s := s)).symm)
  · obtain ⟨runId, hrun⟩ := Option.isSome_iff_exists.mp (hr.events r hrm)
    obtain ⟨v, hg⟩ := exists_mem_groupTotals (fun r : RuntimeEvent => s.taskRun r.taskId)
      (fun r => d.runtimeStoredBytes r.body) hrm hrun
    intro c hcm
    simp only [DB.eventCharges, List.mem_cons, List.not_mem_nil, or_false] at hcm
    rcases hcm with rfl | rfl
    · exact ⟨.global, rfl, hglobal⟩
    · refine ⟨.run runId, congrArg (Option.map Scope.run) hrun,
        hheld ⟨some (.run runId), v, 0⟩ ?_ _ rfl⟩
      simp only [DB.backfill, List.mem_append, List.mem_map]
      exact .inl (.inl (.inl (.inr ⟨_, hg, rfl⟩)))
  · obtain ⟨runId, hrun⟩ := Option.isSome_iff_exists.mp (hr.reports r hrm)
    obtain ⟨v, hg⟩ := exists_mem_groupTotals
      (fun r : ReportEvent => s.capabilityRun r.capabilityId) ReportEvent.bytes hrm hrun
    obtain ⟨w, hw⟩ := exists_mem_groupTotals (fun r : ReportEvent => some r.capabilityId)
      ReportEvent.bytes hrm rfl
    intro c hcm
    simp only [State.reportCharges, List.mem_cons, List.not_mem_nil, or_false] at hcm
    rcases hcm with rfl | rfl | rfl
    · exact ⟨.global, rfl, hglobal⟩
    · refine ⟨.run runId, congrArg (Option.map Scope.run) hrun,
        hheld ⟨some (.run runId), v.1, v.2⟩ ?_ _ rfl⟩
      simp only [DB.backfill, List.mem_append, List.mem_map]
      exact .inl (.inr ⟨_, hg, rfl⟩)
    · refine ⟨.capability r.capabilityId, rfl,
        hheld ⟨some (.capability r.capabilityId), w.1, w.2⟩ ?_ _ rfl⟩
      simp only [DB.backfill, List.mem_append, List.mem_map]
      exact .inr ⟨_, hw, rfl⟩

/-- A migrated database is counted. -/
theorem migrateRuntime_counted {textLength : Event → Int} {order : Table DeliveryOrder.eventId}
    {old : Legacy} (hv : old.version < 5) (h : d.migrateRuntime textLength order old = .ok s) :
    Counted d s := by
  simp only [DB.migrateRuntime, bind_ok_iff, require_ok, exists_const, hv, if_true] at h
  obtain ⟨-, -, h⟩ := h
  split at h
  · rename_i migrated hm
    cases h
    refine migrateStorageUsage_counted ?_ hm
    have hold := old.referential
    have hfirst : Referential (if old.version = 1 then
        old.tables.ensureRuntimeSchema textLength order else old.tables) := by
      split
      · have hr := hold.updateReports (p := fun r => r.accountedBytes = 0)
          (f := fun r : ReportEvent => { r with accountedBytes := textLength r.body })
          (fun _ => rfl) fun _ => rfl
        exact ⟨hr.events, hr.reports, hr.segments⟩
      · exact hold
    generalize (if old.version = 1 then
      old.tables.ensureRuntimeSchema textLength order else old.tables) = tables at hfirst
    split <;> split <;> exact ⟨hfirst.events, hfirst.reports, hfirst.segments⟩
  · cases h

end Migrate

/-- The database before its first migration, as `migrate` creates it. -/
def Legacy.empty : Legacy where
  version := 1
  tables := State.fresh {}
  events := fun _ h => (nomatch h)
  reports := fun _ h => (nomatch h)
  segments := fun _ h => (nomatch h)

/-- A fresh database is the migration of the empty one. -/
theorem migrate_empty (d : DB) (textLength : Event → Int) :
    d.migrateRuntime textLength (.empty _) .empty = .ok (State.fresh {}) := rfl

theorem Counted.fresh (d : DB) (limits : ConcurrencyLimits) : Counted d (State.fresh limits) := by
  refine ⟨?_, ?_, fun _ h => (nomatch h), fun _ h => (nomatch h), fun _ h => (nomatch h)⟩
  · funext x
    change readUsage ⟨[⟨.global, 0, 0⟩], _⟩ x = 0
    cases x <;> rfl
  · intro u hu
    obtain rfl := List.mem_singleton.mp hu
    exact ⟨le_refl _, le_refl _, le_refl _⟩

/-! ## Work on a database -/

/-- A database with counters: a fresh one, or one of an earlier version migrated. -/
inductive DB.Opened (d : DB) : State → Prop
  | fresh (limits : ConcurrencyLimits) : d.Opened (State.fresh limits)
  | migrated {textLength : Event → Int} {order : Table DeliveryOrder.eventId} {old : Legacy}
      {s : State} (version : old.version < 5) (h : d.migrateRuntime textLength order old = .ok s) :
      d.Opened s

/-- An operation of the store, or a transaction of statements that is committed
or rolled back. -/
inductive Work where
  | op (op : Op)
  | transaction (statements : List Statement) (commit : Bool)

def DB.work (d : DB) (s : State) : Work → State
  | .op op => d.step s op
  | .transaction statements commit =>
    match statements.foldlM d.execute s with
    | .ok s' => if commit then s' else s
    | .error _ => s

section Run
variable {d : DB} {s s' : State}

theorem Counted.executes (h : Counted d s) {statements : List Statement}
    (hx : statements.foldlM d.execute s = .ok s') : Counted d s' := by
  induction statements generalizing s with
  | nil => cases hx; exact h
  | cons st statements ih =>
    rw [List.foldlM_cons, bind_ok_iff] at hx
    obtain ⟨s₁, h₁, h₂⟩ := hx
    exact ih (h.execute h₁) h₂

theorem Counted.work (h : Counted d s) (w : Work) : Counted d (d.work s w) := by
  cases w with
  | op op => exact step_induct h fun _ hx => h.exec hx
  | transaction statements commit =>
    simp only [DB.work]
    split
    · rename_i s' hx
      cases commit
      · exact h
      · exact h.executes hx
    · exact h

theorem Opened.counted (h : d.Opened s) : Counted d s := by
  cases h with
  | fresh limits => exact .fresh d limits
  | migrated hv hm => exact migrateRuntime_counted hv hm

/-- The counters of every scope are the sums over its rows, after any work. -/
theorem counters_equal_rows (h : d.Opened s) (work : List Work) (scope : Scope) :
    usedBytes (Library.run d.work s work) scope =
        d.storedBytes (Library.run d.work s work) scope ∧
      0 ≤ (usedBytes (Library.run d.work s work) scope).2 ∧
      (usedBytes (Library.run d.work s work) scope).2 ≤
        (usedBytes (Library.run d.work s work) scope).1 := by
  have hc : Counted d (Library.run d.work s work) :=
    run_invariant (I := fun s : State => Counted d s) (Opened.counted h) fun _ w hs => hs.work w
  rw [usedBytes_eq]
  obtain ⟨-, h1, h2⟩ := hc.valid.read scope
  exact ⟨by rw [hc.equal, storedBytes_eq], h1, h2⟩

/-- A running task with one event, in a database of version 4. -/
def toyLegacy : Legacy where
  version := 4
  tables := toyDB.run (State.fresh {}) (toyStart [toyTask "a" 3 []] ++
    [toyClaim 11, toyCommit "a" 11 1 .prepared])
  events := by decide +kernel
  reports := by decide +kernel
  segments := by decide +kernel

def toyMigrated : State :=
  (toyDB.migrateRuntime (fun _ => 900) (.empty _) toyLegacy).toOption.getD (State.fresh {})

theorem toyMigrated_ok :
    toyDB.migrateRuntime (fun _ => 900) (.empty _) toyLegacy = .ok toyMigrated := by
  have hok : (toyDB.migrateRuntime (fun _ => 900) (.empty _) toyLegacy).isOk = true := by
    decide +kernel
  obtain ⟨s, hs⟩ := exists_of_isOk hok
  rw [toyMigrated, hs]
  rfl

/-- The run of the migrated event is charged for it, and for the next one. -/
theorem migrated_run_counted :
    (usedBytes toyMigrated (.run "run")).1 = 1024 ∧
      usedBytes (Library.run toyDB.work toyMigrated [.op (toyCommit "a" 11 2 .spawned)])
          (.run "run") =
        toyDB.storedBytes (Library.run toyDB.work toyMigrated [.op (toyCommit "a" 11 2 .spawned)])
          (.run "run") :=
  ⟨by decide +kernel,
    (counters_equal_rows (.migrated (by decide) toyMigrated_ok)
      [.op (toyCommit "a" 11 2 .spawned)] (.run "run")).1⟩

end Run
end Orchestrator.Store
