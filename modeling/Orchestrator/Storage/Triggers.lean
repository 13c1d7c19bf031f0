import Orchestrator.Store.Operations
import Orchestrator.Library.Aggregate
import Mathlib.Algebra.Group.Prod
import Mathlib.Algebra.Group.Pi.Basic
import Mathlib.Algebra.Group.Int.Defs

/-!
# The storage counters as SQL keeps them

Six triggers keep `storage_usage`: one for each of `INSERT`, `UPDATE` and
`DELETE` on `runtime_events` and on `report_events`. A schema migration creates
the counters and fills them once from the rows there are. Statements here are
those of SQL, one that breaks a constraint has no effect.
-/
namespace Orchestrator.Store
open Library

/-! ## What a row is charged -/

/-- `SELECT run_id FROM tasks WHERE id=?`, which is NULL without the task. -/
def State.taskRun (s : State) (taskId : String) : Option String :=
  (s.tasks.find? taskId).map Task.runId

def State.capabilityRun (s : State) (capabilityId : String) : Option String :=
  (s.reportCapabilities.find? capabilityId).map ReportCapability.runId

/-- What one statement of a trigger adds or takes, and in which scope. -/
structure Charge where
  scope : Option Scope
  total : Int
  progress : Int
  deriving DecidableEq, Repr

def DB.eventCharges (d : DB) (s : State) (r : RuntimeEvent) : List Charge :=
  let bytes := d.runtimeStoredBytes r.body
  [⟨some .global, bytes, 0⟩, ⟨(s.taskRun r.taskId).map .run, bytes, 0⟩]

def ReportEvent.progressBytes (r : ReportEvent) : Int :=
  if r.kind = .progress then r.accountedBytes else 0

def State.reportCharges (s : State) (r : ReportEvent) : List Charge :=
  [⟨some .global, r.accountedBytes, r.progressBytes⟩,
    ⟨(s.capabilityRun r.capabilityId).map .run, r.accountedBytes, r.progressBytes⟩,
    ⟨some (.capability r.capabilityId), r.accountedBytes, r.progressBytes⟩]

/-! ## The statements of the triggers -/

/-- The `CHECK` constraints of `storage_usage`. -/
def StorageUsage.valid (u : StorageUsage) : Prop :=
  0 ≤ u.totalBytes ∧ 0 ≤ u.progressBytes ∧ u.progressBytes ≤ u.totalBytes

instance (u : StorageUsage) : Decidable u.valid := inferInstanceAs (Decidable (_ ∧ _))

/-- `INSERT ... ON CONFLICT DO UPDATE`: the row offered is checked, then the row left. -/
def credit (usage : Table StorageUsage.scope) (c : Charge) :
    Except CodeError (Table StorageUsage.scope) := do
  let scope ← expect c.scope .sql
  require (StorageUsage.valid ⟨scope, c.total, c.progress⟩) .sql
  let usage := charge usage scope c.total c.progress
  require (∀ u ∈ usage.rows, u.scope = scope → u.valid) .sql
  .ok usage

/-- `UPDATE storage_usage SET total_bytes=total_bytes-? ...`: no row has a NULL scope. -/
def debit (usage : Table StorageUsage.scope) (c : Charge) :
    Except CodeError (Table StorageUsage.scope) := do
  let usage := usage.update (fun u => some u.scope = c.scope) (fun u => { u with
    totalBytes := u.totalBytes - c.total, progressBytes := u.progressBytes - c.progress })
    (Table.keeps StorageUsage.scope)
  require (∀ u ∈ usage.rows, some u.scope = c.scope → u.valid) .sql
  .ok usage

section Fire
variable {α : Type} (charges : α → List Charge)

def onInsert (usage : Table StorageUsage.scope) (new : α) :
    Except CodeError (Table StorageUsage.scope) :=
  (charges new).foldlM credit usage

def onDelete (usage : Table StorageUsage.scope) (old : α) :
    Except CodeError (Table StorageUsage.scope) :=
  (charges old).foldlM debit usage

/-- OLD is taken away before NEW is added. -/
def onUpdate (set : α → α) (usage : Table StorageUsage.scope) (old : α) :
    Except CodeError (Table StorageUsage.scope) := do
  let usage ← (charges old).foldlM debit usage
  (charges (set old)).foldlM credit usage

/-- The `UPDATE` trigger of every row selected, when the columns set are its own. -/
def onUpdates (fires : Prop) [Decidable fires] (set : α → α) (usage : Table StorageUsage.scope)
    (selected : List α) : Except CodeError (Table StorageUsage.scope) :=
  if fires then selected.foldlM (onUpdate charges set) usage else .ok usage

end Fire

/-! ## Statements on the two tables -/

inductive EventColumn where
  | bodyJson | taskId | other
  deriving DecidableEq, Repr

inductive ReportColumn where
  | accountedBytes | kind | capabilityId | other
  deriving DecidableEq, Repr

/-- An `UPDATE` names the columns it sets. -/
structure EventUpdate where
  columns : List EventColumn
  selects : RuntimeEvent → Bool
  set : RuntimeEvent → RuntimeEvent
  body : .bodyJson ∉ columns → ∀ r, (set r).body = r.body
  task : .taskId ∉ columns → ∀ r, (set r).taskId = r.taskId

structure ReportUpdate where
  columns : List ReportColumn
  selects : ReportEvent → Bool
  set : ReportEvent → ReportEvent
  accounted : .accountedBytes ∉ columns → ∀ r, (set r).accountedBytes = r.accountedBytes
  kind : .kind ∉ columns → ∀ r, (set r).kind = r.kind
  capability : .capabilityId ∉ columns → ∀ r, (set r).capabilityId = r.capabilityId

/-- `AFTER UPDATE OF body_json,task_id`. -/
def EventUpdate.fires (u : EventUpdate) : Prop :=
  .bodyJson ∈ u.columns ∨ .taskId ∈ u.columns

instance (u : EventUpdate) : Decidable u.fires := inferInstanceAs (Decidable (_ ∨ _))

/-- `AFTER UPDATE OF accounted_bytes,kind,capability_id`. -/
def ReportUpdate.fires (u : ReportUpdate) : Prop :=
  .accountedBytes ∈ u.columns ∨ .kind ∈ u.columns ∨ .capabilityId ∈ u.columns

instance (u : ReportUpdate) : Decidable u.fires := inferInstanceAs (Decidable (_ ∨ _))

inductive Statement where
  | insertEvent (r : RuntimeEvent)
  | updateEvents (u : EventUpdate)
  | deleteEvents (selects : RuntimeEvent → Bool)
  | insertReport (r : ReportEvent)
  | updateReports (u : ReportUpdate)
  | deleteReports (selects : ReportEvent → Bool)

/-- Foreign keys, as far as the charges follow them. -/
def State.eventReferences (s : State) (events : Table RuntimeEvent.eventId) : Prop :=
  ∀ r ∈ events.rows, (s.taskRun r.taskId).isSome = true

def State.reportReferences (s : State) (reports : Table ReportEvent.eventId) : Prop :=
  ∀ r ∈ reports.rows, (s.capabilityRun r.capabilityId).isSome = true

instance (s : State) (events : Table RuntimeEvent.eventId) : Decidable (s.eventReferences events) :=
  inferInstanceAs (Decidable (∀ r ∈ events.rows, _))

instance (s : State) (reports : Table ReportEvent.eventId) :
    Decidable (s.reportReferences reports) :=
  inferInstanceAs (Decidable (∀ r ∈ reports.rows, _))

/-- A statement with its triggers. Of the constraints it has primary and foreign
keys; the others only refuse more. -/
def DB.execute (d : DB) (s : State) : Statement → Except CodeError State
  | .insertEvent r => do
    let events ← expect (s.runtimeEvents.insert? r) .sql
    require (s.eventReferences events) .sql
    let usage ← onInsert (d.eventCharges s) s.storageUsage r
    .ok { s with runtimeEvents := events, storageUsage := usage }
  | .updateEvents u => do
    let events ← expect (s.runtimeEvents.rewrite? u.selects u.set) .sql
    require (s.eventReferences events) .sql
    let usage ← onUpdates (d.eventCharges s) u.fires u.set s.storageUsage
      (s.runtimeEvents.rows.filter u.selects)
    .ok { s with runtimeEvents := events, storageUsage := usage }
  | .deleteEvents selects => do
    let usage ← (s.runtimeEvents.rows.filter selects).foldlM (onDelete (d.eventCharges s))
      s.storageUsage
    .ok { s with runtimeEvents := s.runtimeEvents.delete selects, storageUsage := usage }
  | .insertReport r => do
    let reports ← expect (s.reportEvents.insert? r) .sql
    require (s.reportReferences reports) .sql
    let usage ← onInsert s.reportCharges s.storageUsage r
    .ok { s with reportEvents := reports, storageUsage := usage }
  | .updateReports u => do
    let reports ← expect (s.reportEvents.rewrite? u.selects u.set) .sql
    require (s.reportReferences reports) .sql
    let usage ← onUpdates s.reportCharges u.fires u.set s.storageUsage
      (s.reportEvents.rows.filter u.selects)
    .ok { s with reportEvents := reports, storageUsage := usage }
  | .deleteReports selects => do
    let usage ← (s.reportEvents.rows.filter selects).foldlM (onDelete s.reportCharges)
      s.storageUsage
    .ok { s with reportEvents := s.reportEvents.delete selects, storageUsage := usage }

/-! ## Migrations -/

/-- A database of an earlier schema version, its foreign keys in order. Before
version 5 the counters of `tables` do not exist, before 4 neither does its
concurrency policy, and before 3 its runs have no delivery mode. -/
structure Legacy where
  version : Nat
  tables : State
  events : tables.eventReferences tables.runtimeEvents
  reports : tables.reportReferences tables.reportEvents
  segments : ∀ g ∈ tables.segments, ∃ t ∈ tables.tasks, t.id = g.taskId

inductive MigrationError where
  | schemaNewerThanBinary | schemaInvalid | sql
  deriving DecidableEq, Repr

def MigrationError.code : MigrationError → String
  | .schemaNewerThanBinary => "schema_newer_than_binary"
  | .schemaInvalid => "schema_invalid"
  | .sql => "sql"

/-- The end of `ensureRuntimeSchema`: reports stored before sizes were accounted
get the length of their text, and `order` is the delivery order it restores. -/
def State.ensureRuntimeSchema (s : State) (textLength : Event → Int)
    (order : Table DeliveryOrder.eventId) : State :=
  { s with
    reportEvents := s.reportEvents.update (fun r => r.accountedBytes = 0)
      (fun r => { r with accountedBytes := textLength r.body }) (Table.keeps ReportEvent.eventId)
    deliveryOrder := order }

/-- The first statements of `migrateStorageUsage`. -/
def DB.recount (d : DB) (s : State) : State :=
  let reports := s.reportEvents.update (fun _ => true) (fun r => { r with
    accountedBytes := max r.accountedBytes (d.encodedLen r.body) +
      (r.body.artifact.map (·.size)).getD 0 }) (Table.keeps ReportEvent.eventId)
  { s with
    reportEvents := reports
    reportCapabilities := s.reportCapabilities.update (fun _ => true) (fun c => { c with
      usedBytes := max c.usedBytes
        (total ReportEvent.accountedBytes
          (reports.rows.filter (fun r => r.capabilityId = c.capabilityId))) })
      (Table.keeps ReportCapability.capabilityId) }

theorem zeroUsage_keyed (s : State) : ((Scope.global :: (s.runs.rows.map (Scope.run ∘ Run.id) ++
    s.reportCapabilities.rows.map (Scope.capability ∘ ReportCapability.capabilityId))).map
      (fun x => (⟨x, 0, 0⟩ : StorageUsage))).map StorageUsage.scope |>.Nodup := by
  rw [List.map_map, show StorageUsage.scope ∘ (fun x => (⟨x, 0, 0⟩ : StorageUsage)) = id from rfl,
    List.map_id, List.nodup_cons, ← List.map_map, ← List.map_map]
  refine ⟨by simp, List.Nodup.append ?_ ?_ ?_⟩
  · exact s.runs.keyed.map fun a b h => Scope.run.inj h
  · exact s.reportCapabilities.keyed.map fun a b h => Scope.capability.inj h
  · intro x hx hy
    obtain ⟨a, -, rfl⟩ := List.mem_map.mp hx
    obtain ⟨b, -, hb⟩ := List.mem_map.mp hy
    cases hb

/-- The counters as they are created. -/
def State.zeroUsage (s : State) : Table StorageUsage.scope :=
  ⟨_, zeroUsage_keyed s⟩

/-- Both sums of a report aggregate. -/
def ReportEvent.bytes (r : ReportEvent) : Int × Int := (r.accountedBytes, r.progressBytes)

/-- The five aggregates `migrateStorageUsage` fills the counters from. -/
def DB.backfill (d : DB) (s : State) : List Charge :=
  let stored := fun r : RuntimeEvent => d.runtimeStoredBytes r.body
  let events := s.runtimeEvents.rows
  let reports := s.reportEvents.rows
  [⟨some .global, total stored events, 0⟩] ++
    (groupTotals (fun r : RuntimeEvent => s.taskRun r.taskId) stored events).map
      (fun g => ⟨some (.run g.1), g.2, 0⟩) ++
    [⟨some .global, (total ReportEvent.bytes reports).1, (total ReportEvent.bytes reports).2⟩] ++
    (groupTotals (fun r : ReportEvent => s.capabilityRun r.capabilityId) ReportEvent.bytes
      reports).map (fun g => ⟨some (.run g.1), g.2.1, g.2.2⟩) ++
    (groupTotals (fun r : ReportEvent => some r.capabilityId) ReportEvent.bytes reports).map
      (fun g => ⟨some (.capability g.1), g.2.1, g.2.2⟩)

def DB.migrateStorageUsage (d : DB) (s : State) : Except CodeError State := do
  let s := d.recount s
  let usage ← (d.backfill s).foldlM credit s.zeroUsage
  .ok { s with storageUsage := usage }

def currentSchemaVersion : Nat := 5

/-- `migrateRuntime`; the version it publishes is the current one. -/
def DB.migrateRuntime (d : DB) (textLength : Event → Int) (order : Table DeliveryOrder.eventId)
    (old : Legacy) : Except MigrationError State := do
  require (old.version ≤ currentSchemaVersion) .schemaNewerThanBinary
  require (1 ≤ old.version) .schemaInvalid
  let s := if old.version = 1 then old.tables.ensureRuntimeSchema textLength order else old.tables
  let s := if old.version < 3 then
      { s with
        runs := s.runs.update (fun _ => true) (fun r => { r with deliveryMode := .native })
          (Table.keeps Run.id) }
    else s
  let s := if old.version < 4 then { s with limits := {} } else s
  if old.version < 5 then
    match d.migrateStorageUsage s with
    | .ok s => .ok s
    | .error _ => .error .sql
  else .ok s

end Orchestrator.Store
