import Mathlib.Init

/-!
# Messages between coordinator and Host

The records of package `contract`. Field defaults are Go's zero values.
-/
namespace Orchestrator

/-- `other` is any text outside the ten event kinds the store knows. -/
inductive EventKind where
  | prepared | spawned | running | session | question | result | exited | stopped | failed | unknown
  | other (text : String)
  deriving DecidableEq, Repr

def EventKind.text : EventKind → String
  | .prepared => "prepared"
  | .spawned => "spawned"
  | .running => "running"
  | .session => "session"
  | .question => "question"
  | .result => "result"
  | .exited => "exited"
  | .stopped => "stopped"
  | .failed => "failed"
  | .unknown => "unknown"
  | .other text => text

structure ProcessIdentity where
  pid : Int
  birth : String
  pgid : Int
  deriving DecidableEq, Repr

structure ArtifactRef where
  id : String := ""
  path : String := ""
  size : Int := 0
  sha256 : String := ""
  deriving DecidableEq, Repr

structure Event where
  version : Int := 0
  producerId : String := ""
  eventId : String := ""
  eventRevision : Int := 0
  actionSlot : String := ""
  runId : String := ""
  taskId : String := ""
  attemptId : String := ""
  segmentId : String := ""
  workRevision : Int := 0
  executionEpoch : Nat := 0
  commandId : String := ""
  sequence : Int := 0
  kind : EventKind := .other ""
  payloadHash : String := ""
  process : Option ProcessIdentity := none
  exitCode : Option Int := none
  artifact : Option ArtifactRef := none
  activeMs : Int := 0
  questionId : String := ""
  questionRevision : Int := 0
  questionKind : String := ""
  sessionKind : String := ""
  sessionId : String := ""
  deriving DecidableEq, Repr

/-- Binds a source Host process to a coordinator-approved launch. -/
structure HostHello where
  launchId : String
  launchToken : String
  originContextId : String
  originPid : Int
  originBirth : String
  hostGeneration : String
  pid : Int
  birth : String
  executable : String
  deriving DecidableEq, Repr

/-- Ownership and budget grants only: the source Host keeps the invocation. -/
structure LaunchCommand where
  commandId : String := ""
  hostId : String := ""
  runId : String := ""
  taskId : String := ""
  attemptId : String := ""
  segmentId : String := ""
  workRevision : Int := 0
  executionEpoch : Nat := 0
  slotToken : String := ""
  launchIntentHash : String := ""
  reservationId : String := ""
  budgetGroupId : String := ""
  grantedActiveMs : Int := 0
  deadlineUnixMs : Int := 0
  adapterPayload : String := ""
  questionId : String := ""
  questionRevision : Int := 0
  answer : String := ""
  sessionKind : String := ""
  sessionId : String := ""
  reportCapabilityId : String := ""
  deriving DecidableEq, Repr

structure ReportCapabilityRegistration where
  capabilityId : String
  tokenHash : String
  capabilityDir : String
  runId : String
  taskId : String
  attemptId : String
  segmentId : String
  producerId : String
  workRevision : Int
  executionEpoch : Nat
  deriving DecidableEq, Repr

structure StopCommand where
  commandId : String := ""
  segmentId : String := ""
  reason : String := ""
  deadlineUnixMs : Int := 0
  deriving DecidableEq, Repr

structure DurableAck where
  producerId : String := ""
  ackedThrough : Int := 0
  eventId : String := ""
  payloadHash : String := ""
  status : String := ""
  deriving DecidableEq, Repr

end Orchestrator
