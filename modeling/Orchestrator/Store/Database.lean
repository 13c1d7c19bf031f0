import Orchestrator.Store.Schema
import Orchestrator.Library.Guarded

/-!
# The store handle

`DB` is the opened store: its storage limits and the functions of the standard
library and the operating system that store code calls. Nothing below depends
on what those functions compute, so they are fields and every theorem holds for
all of them. What a call draws from outside (fresh ids, the clock, the free
disk space) is an argument of the call.
-/
namespace Orchestrator.Store
open Library

/-- `sql` is an error the code passes on from the database driver; `outOfFuel` is none of the code,
it says that a search of this model was given too little fuel. -/
inductive CodeError where
  | dependencyBlocked | attemptLimit | notFound | conflict | noExecutionSlot | noReadyTask
  | invalidDag | hostRejected | eventSequenceConflict | admissionDeferred
  | invalidRun | deliveryModeInvalid | invalidAdapterPayload | invalidEpoch
  | invalidEvent | invalidEventKind | invalidSession | invalidQuestion | artifactTooLarge
  | controlSpoolFull | storageBlocked | reportBudgetExhausted | budgetExhausted
  | invalidStop | invalidAnswer | invalidReview | invalidRetry | fallbackUnavailable
  | invalidAck | invalidOwnerRebind
  | invalidReportCapability | unsafeReportCapability | reportCapabilityRejected
  | invalidReportEvent | invalidReportKind | invalidReportPayload | reportArtifactOutsideCapability
  | reportArtifactTooLarge | unsafeReportArtifact | reportArtifactHashMismatch
  | questionAlreadyOpen | ownerMismatch
  | sql | outOfFuel
  deriving DecidableEq, Repr

/-- The text a caller sees; driver errors have texts of their own. -/
def CodeError.code : CodeError → String
  | .dependencyBlocked => "dependency_blocked"
  | .attemptLimit => "attempt_limit"
  | .notFound => "not_found"
  | .conflict => "conflict"
  | .noExecutionSlot => "no_execution_slot"
  | .noReadyTask => "no_ready_task"
  | .invalidDag => "invalid_dag"
  | .hostRejected => "host_rejected"
  | .eventSequenceConflict => "event_sequence_conflict"
  | .admissionDeferred => "admission_deferred"
  | .invalidRun => "invalid_run"
  | .deliveryModeInvalid => "delivery_mode_invalid"
  | .invalidAdapterPayload => "invalid_adapter_payload"
  | .invalidEpoch => "invalid_epoch"
  | .invalidEvent => "invalid_event"
  | .invalidEventKind => "invalid_event_kind"
  | .invalidSession => "invalid_session"
  | .invalidQuestion => "invalid_question"
  | .artifactTooLarge => "artifact_too_large"
  | .controlSpoolFull => "control_spool_full"
  | .storageBlocked => "storage_blocked"
  | .reportBudgetExhausted => "report_budget_exhausted"
  | .budgetExhausted => "budget_exhausted"
  | .invalidStop => "invalid_stop"
  | .invalidAnswer => "invalid_answer"
  | .invalidReview => "invalid_review"
  | .invalidRetry => "invalid_retry"
  | .fallbackUnavailable => "fallback_unavailable"
  | .ownerMismatch => "owner_mismatch"
  | .invalidAck => "invalid_ack"
  | .invalidOwnerRebind => "invalid_owner_rebind"
  | .invalidReportCapability => "invalid_report_capability"
  | .unsafeReportCapability => "unsafe_report_capability"
  | .reportCapabilityRejected => "report_capability_rejected"
  | .invalidReportEvent => "invalid_report_event"
  | .invalidReportKind => "invalid_report_kind"
  | .invalidReportPayload => "invalid_report_payload"
  | .reportArtifactOutsideCapability => "report_artifact_outside_capability"
  | .reportArtifactTooLarge => "report_artifact_too_large"
  | .unsafeReportArtifact => "unsafe_report_artifact"
  | .reportArtifactHashMismatch => "report_artifact_hash_mismatch"
  | .questionAlreadyOpen => "question_already_open"
  | .sql => "sql"
  | .outOfFuel => "out_of_fuel"

/-- What `json.Unmarshal` finds of a payload in the struct of `resourceKeys`. -/
structure PayloadKeys where
  provider : String
  kind : String
  directory : String
  deriving DecidableEq, Repr

structure AckDecision where
  eventId : String
  eventRevision : Int
  eventHash : String
  actionSlot : String
  decision : String
  commandId : String
  deriving DecidableEq, Repr

/-- What the strict decoder finds in a report payload that is not progress. -/
structure ReportPayload where
  status : String
  questionId : String := ""
  questionRevision : Int := 0
  questionKind : String := ""
  artifact : ArtifactRef
  deriving DecidableEq, Repr

structure ProgressPayload where
  status : String
  sequence : Int
  elapsedMs : Int
  deriving DecidableEq, Repr

/-- Functions the store calls but does not define. -/
structure Platform where
  workspaceKey : String → String
  unmarshalPayload : String → Option PayloadKeys
  /-- Likewise for the discriminator of `validatePlan`. -/
  unmarshalKind : String → Option String
  jsonValid : String → Bool
  /-- The text `json.Marshal` leaves of an embedded raw message. -/
  compact : String → String
  runtimeHash : String → String
  toLower : String → String
  trimSpace : String → String
  /-- `filepath.Rel` and `filepath.Join`. -/
  rel : String → String → Option String
  join : String → String → String
  /-- `len(json.Marshal(event))`. -/
  encodedLen : Event → Nat
  encodeDecisions : List AckDecision → String
  canonicalReportPayload : String → Option String
  decodeReport : String → Option ReportPayload
  decodeProgress : String → Option ProgressPayload

structure DB extends Platform where
  runControlLimit : Int := 16 * 1024 * 1024
  userControlLimit : Int := 128 * 1024 * 1024
  runProgressLimit : Int := 12 * 1024 * 1024
  userProgressLimit : Int := 96 * 1024 * 1024
  reportControlLimit : Int := 20 * 1024 * 1024
  reportProgressLimit : Int := 16 * 1024 * 1024
  minFreeBytes : Nat := 64 * 1024 * 1024
  criticalDiskReserve : Nat := 1024 * 1024
  sqliteWriteOverhead : Nat := 4 * 1024 * 1024

/-- `time.Now`, in milliseconds and as the RFC 3339 text stored in rows. -/
structure Clock where
  unixMs : Int
  stamp : String
  deriving DecidableEq, Repr

/-- What one call draws from outside. `newId` is `newID`: the code asks for each
kind of id at most once in a call. -/
structure Env where
  now : Clock
  disk : Option Nat
  newId : String → String

def defaultSegmentActiveMs : Int := 60 * 60 * 1000
def defaultGroupActiveMs : Int := 120 * 60 * 1000

/-- Of either case: `hex.DecodeString` takes both. -/
def isHexDigit (c : Char) : Bool :=
  c.isDigit || ('a' ≤ c && c ≤ 'f') || ('A' ≤ c && c ≤ 'F')

/-- 64 bytes that `hex.DecodeString` accepts. -/
def validDigest (value : String) : Bool :=
  value.toList.length = 64 && value.toList.all isHexDigit

/-! ## Storage admission -/

/-- Total and progress bytes charged to a scope, zero when it has no row. -/
def usedBytes (s : State) (scope : Scope) : Int × Int :=
  match s.storageUsage.find? scope with
  | some u => (u.totalBytes, u.progressBytes)
  | none => (0, 0)

/-- Addition of unsigned 64-bit amounts, refused on overflow. -/
def addRequired (required value : Nat) : Option Nat :=
  if 2 ^ 64 - 1 - required < value then none else some (required + value)

def exceeds (incoming used limit : Int) : Prop := incoming > limit ∨ used > limit - incoming

instance (incoming used limit : Int) : Decidable (exceeds incoming used limit) :=
  inferInstanceAs (Decidable (_ ∨ _))

/-- `disk` is what `storageAvailable` answers, `none` for an error. -/
def DB.storageAdmission (d : DB) (s : State) (disk : Option Nat) (runId : String)
    (incoming : Int) (diagnostic : Bool) : Except CodeError Unit := do
  require (0 ≤ incoming) .controlSpoolFull
  let available ← expect disk .storageBlocked
  let required ← expect
    (if diagnostic then addRequired d.minFreeBytes d.criticalDiskReserve
     else some d.minFreeBytes) .storageBlocked
  let required ← expect (addRequired required incoming.toNat) .storageBlocked
  let required ← expect (addRequired required d.sqliteWriteOverhead) .storageBlocked
  require (required ≤ available) .storageBlocked
  let run := usedBytes s (.run runId)
  let user := usedBytes s .global
  require (¬ (exceeds incoming run.1 d.runControlLimit ∨
    exceeds incoming user.1 d.userControlLimit))
    .controlSpoolFull
  require (diagnostic = true → ¬ (exceeds incoming run.2 d.runProgressLimit ∨
    exceeds incoming user.2 d.userProgressLimit)) .reportBudgetExhausted

/-- What the insert triggers do to one counter row. -/
def charge (usage : Table StorageUsage.scope) (scope : Scope) (total progress : Int) :
    Table StorageUsage.scope :=
  match usage.find? scope with
  | some _ => usage.update (fun u => u.scope = scope)
      (fun u => { u with
        totalBytes := u.totalBytes + total
        progressBytes := u.progressBytes + progress })
  | none => (usage.insert? ⟨scope, total, progress⟩).getD usage

/-- `runtimeStoredBytes` of an event body. -/
def DB.runtimeStoredBytes (d : DB) (body : Event) : Int :=
  d.encodedLen body + if body.kind = .exited then 0 else (body.artifact.map (·.size)).getD 0

end Orchestrator.Store
