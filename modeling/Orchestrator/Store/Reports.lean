import Orchestrator.Store.HostEvents

/-!
# Worker reports

A worker reports through a capability its Host registers for one segment. A
question is held back until the segment's provider session is known.
-/
namespace Orchestrator.Store
open Library

/-- What `Lstat` or `Stat` tells of a file. -/
structure FileInfo where
  isDir : Bool := false
  isRegular : Bool := false
  isSymlink : Bool := false
  perm : Nat
  ownedByUser : Bool
  links : Nat := 1
  size : Int := 0
  deriving DecidableEq, Repr

/-- What the file system answers while a report artifact is checked. -/
structure ArtifactProbe where
  canonical : Option String
  canonicalRoot : Option String
  opened : Bool
  info : Option FileInfo
  copied : Option Int
  unchangedAfter : Bool
  sha256 : String
  deriving DecidableEq, Repr

/-! ## RegisterReportCapability -/

def isAbs (path : String) : Bool := path.toList.head? = some '/'

def registrationAck (producerId capabilityId tokenHash : String) : DurableAck where
  producerId := producerId
  eventId := capabilityId
  payloadHash := tokenHash
  status := "durable"

def DB.registerReportCapability (d : DB) (s : State) (info : Option FileInfo)
    (r : ReportCapabilityRegistration) : Except CodeError (State × DurableAck) := do
  require (r.capabilityId ≠ "" ∧ r.producerId ≠ "" ∧ r.segmentId ≠ "" ∧
    validDigest r.tokenHash = true ∧ 1 ≤ r.workRevision ∧ r.executionEpoch ≠ 0 ∧
    isAbs r.capabilityDir = true) .invalidReportCapability
  let info ← expect info .unsafeReportCapability
  require (info.isDir = true ∧ info.isSymlink = false ∧ info.perm = 0o700 ∧
    info.ownedByUser = true) .unsafeReportCapability
  let c ← expect (s.reportCapabilities.find? r.capabilityId) .conflict
  let host ← expect (s.hosts.find? c.producerId) .conflict
  require (host.acceptsEvents r.executionEpoch) .conflict
  require (c.segmentId = r.segmentId ∧ c.producerId = r.producerId ∧ c.runId = r.runId ∧
    c.taskId = r.taskId ∧ c.attemptId = r.attemptId ∧ c.workRevision = r.workRevision) .conflict
  let tokenHash := d.toLower r.tokenHash
  require (c.status = .registered → c.tokenHash = tokenHash ∧ c.capabilityDir = r.capabilityDir)
    .conflict
  .ok ({ s with
    reportCapabilities := s.reportCapabilities.update (fun c => c.capabilityId = r.capabilityId)
      (fun c => { c with
        tokenHash := tokenHash
        capabilityDir := r.capabilityDir
        executionEpoch := r.executionEpoch
        status := .registered }) }, registrationAck c.producerId r.capabilityId tokenHash)

/-! ## CommitReportEvent -/

structure ReportEventSpec where
  capabilityId : String
  token : String
  eventId : String
  sequence : Int
  kind : String
  payload : String
  deriving DecidableEq, Repr

def parseReportKind : String → Option ReportKind
  | "progress" => some .progress
  | "question" => some .question
  | "result" => some .result
  | "failure" => some .failure
  | _ => none

def ReportKind.text : ReportKind → String
  | .progress => "progress"
  | .question => "question"
  | .result => "result"
  | .failure => "failure"

def ReportKind.eventKind : ReportKind → EventKind
  | .progress => .other "progress"
  | .question => .question
  | .result => .result
  | .failure => .failed

/-- `^[A-Za-z0-9_-]{1,64}$`. -/
def reportIdPattern (id : String) : Bool :=
  let cs := id.toList
  1 ≤ cs.length && cs.length ≤ 64 && cs.all (fun c => c.isAlphanum || c = '_' || c = '-')

/-- The statuses a payload of the kind may carry. -/
def ReportPayload.allowed (p : ReportPayload) : ReportKind → Prop
  | .result => p.status = "completed" ∨ p.status = "partial"
  | .failure => p.status = "failed" ∨ p.status = "blocked"
  | .question => p.status = "waiting_user" ∧ p.questionId ≠ "" ∧ 0 < p.questionRevision ∧
      p.questionKind = "technical"
  | .progress => False

instance (p : ReportPayload) : (kind : ReportKind) → Decidable (p.allowed kind)
  | .result => inferInstanceAs (Decidable (_ ∨ _))
  | .failure => inferInstanceAs (Decidable (_ ∨ _))
  | .question => inferInstanceAs (Decidable (_ ∧ _))
  | .progress => isFalse id

def Platform.decodeReportPayload (p : Platform) (kind : ReportKind) (raw : String) :
    Except CodeError Event :=
  if kind = .progress then do
    let value ← expect (p.decodeProgress raw) .invalidReportPayload
    require ((value.status = "resource_sample" ∨ value.status = "checkpoint") ∧
      0 ≤ value.sequence ∧ 0 ≤ value.elapsedMs) .invalidReportPayload
    .ok {}
  else do
    let value ← expect (p.decodeReport raw) .invalidReportPayload
    require (value.allowed kind ∧ isAbs value.artifact.path = true ∧
      validDigest value.artifact.sha256 = true ∧ 0 ≤ value.artifact.size) .invalidReportPayload
    .ok {
      artifact := some value.artifact
      questionId := value.questionId
      questionRevision := value.questionRevision
      questionKind := value.questionKind }

def Platform.validateReportArtifact (p : Platform) (probe : ArtifactProbe) (value : ArtifactRef)
    (capabilityDir : String) : Except CodeError Unit := do
  let rel ← expect (p.rel capabilityDir value.path) .reportArtifactOutsideCapability
  require (rel ≠ "." ∧ ¬ "../".toList <+: rel.toList ∧ isAbs rel = false)
    .reportArtifactOutsideCapability
  require (value.size ≤ 1024 * 1024) .reportArtifactTooLarge
  let canonical ← expect probe.canonical .unsafeReportArtifact
  let canonicalRoot ← expect probe.canonicalRoot .unsafeReportArtifact
  require (p.join canonicalRoot rel = canonical) .unsafeReportArtifact
  require (probe.opened = true) .unsafeReportArtifact
  let info ← expect probe.info .unsafeReportArtifact
  require (info.isRegular = true ∧ info.perm = 0o600 ∧ info.ownedByUser = true ∧ info.links = 1 ∧
    info.size = value.size) .unsafeReportArtifact
  require (probe.copied = some value.size ∧ probe.unchangedAfter = true ∧
    probe.sha256 = p.toLower value.sha256) .reportArtifactHashMismatch

def Platform.validateReportPayload (p : Platform) (probe : ArtifactProbe) (kind : ReportKind)
    (raw capabilityDir : String) : Except CodeError Event := do
  let e ← p.decodeReportPayload kind raw
  match e.artifact with
  | none =>
    require (kind = .progress) .invalidReportPayload
    .ok e
  | some value =>
    p.validateReportArtifact probe value capabilityDir
    .ok e

/-- The event a report becomes, bound to the capability's segment. -/
def reportEvent (c : ReportCapability) (spec : ReportEventSpec) (kind : ReportKind)
    (payloadHash : String) (session : Option SegmentSession) (e : Event) : Event :=
  { e with
    version := 1
    producerId := c.capabilityId
    eventId := spec.eventId
    runId := c.runId
    taskId := c.taskId
    attemptId := c.attemptId
    segmentId := c.segmentId
    workRevision := c.workRevision
    executionEpoch := c.executionEpoch
    sequence := spec.sequence
    kind := kind.eventKind
    payloadHash := payloadHash
    sessionKind := if kind = .question then (session.map (·.sessionKind)).getD "" else e.sessionKind
    sessionId := if kind = .question then (session.map (·.sessionId)).getD "" else e.sessionId }

/-- `canonicalReportEvent`. -/
def canonicalReportEvent (e : Event) : Event := { e with executionEpoch := 0 }

def State.lastReportSequence (s : State) (capabilityId : String) : Int :=
  ((s.reportEvents.rows.filter (fun r => r.capabilityId = capabilityId)).map
    ReportEvent.sequence).foldr max 0

/-- A question of the task is open, or waits for its session. -/
def State.openQuestions (s : State) (taskId : String) : Nat :=
  s.questions.count (fun q => q.taskId = taskId && q.status ≠ .resolved) +
    s.reportEvents.count (fun r => r.kind = .question && r.deliveryStatus = .pendingSession &&
      (s.reportCapabilities.find? r.capabilityId).any (fun c => c.taskId = taskId))

def reportDelivery (kind : ReportKind) (e : Event) : DeliveryStatus :=
  if kind = .progress then .internal
  else if kind = .question ∧ e.sessionId = "" then .pendingSession
  else .pending

def DB.accountedBytes (d : DB) (kind : ReportKind) (e : Event) : Int :=
  d.encodedLen e + (e.artifact.map (·.size)).getD 0 +
    if kind = .question ∧ e.sessionId = "" then 4096 else 0

/-- The insert into `report_events` with its trigger. -/
def DB.appendReport (d : DB) (s : State) (c : ReportCapability) (spec : ReportEventSpec)
    (kind : ReportKind) (payloadHash : String) (e : Event) : Except CodeError State := do
  let bytes := d.accountedBytes kind e
  let progress := if kind = .progress then bytes else 0
  let delivery := reportDelivery kind e
  require (∀ r ∈ s.reportEvents.rows,
    ¬ (r.capabilityId = spec.capabilityId ∧ r.sequence = spec.sequence)) .conflict
  let events ← expect (s.reportEvents.insert? {
    eventId := spec.eventId
    capabilityId := spec.capabilityId
    sequence := spec.sequence
    kind := kind
    payloadHash := payloadHash
    body := e
    eventRevision := spec.sequence
    actionSlot := d.actionSlot spec.capabilityId spec.eventId
    deliveryStatus := delivery
    accountedBytes := bytes }) .conflict
  let usage := charge (charge (charge s.storageUsage .global bytes progress)
    (.run c.runId) bytes progress) (.capability spec.capabilityId) bytes progress
  let deliveryOrder ← s.orderDelivery (delivery ≠ .pendingSession) spec.eventId c.taskId
  .ok { s with
    reportEvents := events
    storageUsage := usage
    deliveryOrder := deliveryOrder
    reportCapabilities := s.reportCapabilities.update (fun r => r.capabilityId = spec.capabilityId)
      (fun r => { r with usedBytes := r.usedBytes + bytes }) }

def reportAck (spec : ReportEventSpec) (payloadHash : String) : DurableAck where
  producerId := spec.capabilityId
  ackedThrough := spec.sequence
  eventId := spec.eventId
  payloadHash := payloadHash
  status := "durable"

/-- A question whose session is known is asked at once, and its segment stopped. -/
def askReported (env : Env) (s : State) (kind : ReportKind) (e : Event) : Except CodeError State :=
  if kind = .question ∧ e.sessionId ≠ "" then do
    let s ← applyQuestion s e
    ensureQuestionStop env s e
  else .ok s

/-- A report its capability has not committed before. -/
def DB.commitNewReport (d : DB) (env : Env) (probe : ArtifactProbe) (s : State)
    (c : ReportCapability) (spec : ReportEventSpec) (kind : ReportKind) (payload : String) :
    Except CodeError (State × DurableAck) := do
  let payloadHash := d.runtimeHash payload
  require (spec.sequence = s.lastReportSequence spec.capabilityId + 1) .eventSequenceConflict
  let e ← d.validateReportPayload probe kind payload c.capabilityDir
  let e := reportEvent c spec kind payloadHash (s.sessions.find? c.segmentId) e
  let bytes := d.accountedBytes kind e
  d.storageAdmission s env.disk c.runId bytes (kind = .progress)
  require (¬ (exceeds bytes c.usedBytes d.reportControlLimit ∨ (kind = .progress ∧
    exceeds bytes (usedBytes s (.capability c.capabilityId)).2 d.reportProgressLimit)))
    .reportBudgetExhausted
  require (kind = .question → s.openQuestions c.taskId = 0) .questionAlreadyOpen
  let s ← d.appendReport s c spec kind payloadHash e
  let s ← askReported env s kind e
  .ok (s, reportAck spec payloadHash)

/-- A report under a sequence and an id its capability has used together before. -/
def DB.repeatReport (d : DB) (s : State) (c : ReportCapability) (spec : ReportEventSpec)
    (kind : ReportKind) (payload : String) (old : ReportEvent) :
    Except CodeError (State × DurableAck) := do
  let payloadHash := d.runtimeHash payload
  require (old.kind = kind ∧ old.payloadHash = payloadHash) .conflict
  let e ← d.decodeReportPayload kind payload
  let e := reportEvent c spec kind payloadHash (s.sessions.find? c.segmentId) e
  require (canonicalReportEvent old.body = canonicalReportEvent e) .conflict
  .ok (s, reportAck spec payloadHash)

def DB.commitReportEvent (d : DB) (env : Env) (probe : ArtifactProbe) (s : State)
    (spec : ReportEventSpec) : Except CodeError (State × DurableAck) := do
  require (spec.capabilityId ≠ "" ∧ spec.token ≠ "" ∧ reportIdPattern spec.eventId = true ∧
    1 ≤ spec.sequence ∧ spec.payload ≠ "" ∧ spec.payload.utf8ByteSize ≤ 60 * 1024 ∧
    d.jsonValid spec.payload = true) .invalidReportEvent
  let kind ← expect (parseReportKind spec.kind) .invalidReportKind
  let c ← expect (s.reportCapabilities.find? spec.capabilityId) .reportCapabilityRejected
  let host ← expect (s.hosts.find? c.producerId) .reportCapabilityRejected
  require (c.status = .registered ∧ host.status = .ready ∧
    host.coordinatorEpoch = c.executionEpoch ∧ c.tokenHash = d.runtimeHash spec.token)
    .reportCapabilityRejected
  let payload ← expect (d.canonicalReportPayload spec.payload) .invalidReportEvent
  match s.reportEvents.rows.find? (fun r => r.capabilityId = spec.capabilityId &&
      r.sequence = spec.sequence && r.eventId = spec.eventId) with
  | some old => d.repeatReport s c spec kind payload old
  | none => d.commitNewReport env probe s c spec kind payload

end Orchestrator.Store
