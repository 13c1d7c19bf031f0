import Orchestrator.Store.Database

/-!
# The source Host

A source Host runs the workers of one launch and keeps a durable spool of the
events it has produced, numbered without a gap. `execute` decides which events a
segment produces from what it observes of the worker's process, which is an
input here. Appending an event can be interrupted at any point, and a restart
loses every goroutine but neither the spool nor the ledger of accepted grants.
-/
namespace Orchestrator.Host
open Library Store

/-! ## Events -/

structure StructuredEventFields where
  questionRevision : Int := 0
  sessionKind : String := ""
  sessionId : String := ""
  deriving DecidableEq, Repr

/-- What one call of `appendStructuredEvent` is asked to append. -/
structure Draft where
  kind : EventKind
  payloadHash : String
  identity : Option ProcessIdentity := none
  exitCode : Option Int := none
  artifact : Option ArtifactRef := none
  fields : StructuredEventFields := {}
  deriving DecidableEq, Repr

/-- The terminal record of a provider, as `protocol.Finish` returns it, with the
artifact its text was written to. -/
structure Terminal where
  failed : Bool
  kind : String
  succeeded : Bool
  sessionId : String
  artifact : Option ArtifactRef
  deriving DecidableEq, Repr

/-- What becomes of a grant once it is accepted. -/
inductive Observed where
  /-- Refused before `prepared` is durable: no invocation, or an invalid grant. -/
  | rejected
  /-- A stop was requested before the process was started. -/
  | stoppedEarly
  | startFailed
  /-- The process group could not be stopped, or not be seen to have exited. -/
  | lost (identity : ProcessIdentity) (session : Option String)
  | stopped (identity : ProcessIdentity) (session : Option String) (exit : Int)
  | structured (identity : ProcessIdentity) (session : Option String) (exit : Int)
      (terminal : Terminal)
  | plain (identity : ProcessIdentity) (exit : Int) (artifact : ArtifactRef)

/-- `providerSessionKind`. -/
def providerSessionKind (provider : String) : String :=
  if provider = "antigravity-cli" then "conversation-id" else "session-id"

def Terminal.eventKind (t : Terminal) (exit : Int) : EventKind :=
  if t.failed = true ∨ exit ≠ 0 ∨ (t.kind ≠ "question" ∧ t.succeeded = false) then .failed
  else if t.kind = "question" then .question
  else .result

section Execute
variable (p : Platform) (grant : LaunchCommand)

/-- `hashText(label + ":" + segment)`. -/
def segmentHash (label : String) : String := p.runtimeHash (label ++ ":" ++ grant.segmentId)

/-- `recordLaunchFailed`. -/
def recordLaunchFailed : List Draft :=
  [{ kind := .failed, payloadHash := segmentHash p grant "failed", exitCode := some (-1) },
    { kind := .exited, payloadHash := segmentHash p grant "exited", exitCode := some (-1) }]

/-- `finalizeStopped`. -/
def finalizeStopped (identity : Option ProcessIdentity) (exit : Int) : List Draft :=
  [{ kind := .stopped, payloadHash := segmentHash p grant "stopped",
     identity := identity, exitCode := some exit },
    { kind := .exited, payloadHash := segmentHash p grant "exited",
      identity := identity, exitCode := some exit }]

def unknownDraft (identity : Option ProcessIdentity) : Draft :=
  { kind := .unknown, payloadHash := segmentHash p grant "unknown", identity := identity }

def preparedDraft : Draft :=
  { kind := .prepared, payloadHash := segmentHash p grant "segment_started" }

/-- Up to the running process, with its session when the provider reports one. -/
def launched (provider : String) (identity : ProcessIdentity) (session : Option String) :
    List Draft :=
  [preparedDraft p grant,
    { kind := .spawned, payloadHash := segmentHash p grant "spawned", identity := some identity },
    { kind := .running, payloadHash := segmentHash p grant "running",
      identity := some identity }] ++
  (session.map fun id =>
    { kind := .session
      payloadHash := p.runtimeHash ("session:" ++ providerSessionKind provider ++ ":" ++ id)
      identity := some identity
      fields := { sessionKind := providerSessionKind provider, sessionId := id } : Draft }).toList

/-- The terminal event of a structured worker: a question follows the one the
grant carries. -/
def terminalDraft (provider : String) (identity : ProcessIdentity) (exit : Int) (t : Terminal) :
    Draft where
  kind := t.eventKind exit
  payloadHash := (t.artifact.map (·.sha256)).getD
    (segmentHash p grant (t.eventKind exit).text)
  identity := some identity
  exitCode := some exit
  artifact := t.artifact
  fields := {
    questionRevision := if t.eventKind exit = .question then grant.questionRevision + 1 else 0
    sessionKind := providerSessionKind provider
    sessionId := t.sessionId }

/-- The events of an accepted grant, in order. -/
def execute (provider : String) : Observed → List Draft
  | .rejected => recordLaunchFailed p grant
  | .stoppedEarly => preparedDraft p grant :: finalizeStopped p grant none (-1)
  | .startFailed => [preparedDraft p grant, unknownDraft p grant none]
  | .lost identity session =>
    launched p grant provider identity session ++ [unknownDraft p grant (some identity)]
  | .stopped identity session exit =>
    launched p grant provider identity session ++ finalizeStopped p grant (some identity) exit
  | .structured identity session exit t =>
    launched p grant provider identity session ++
      [terminalDraft p grant provider identity exit t,
        { kind := .exited, payloadHash := segmentHash p grant "exited",
          identity := some identity, exitCode := some exit, artifact := t.artifact }]
  | .plain identity exit artifact =>
    launched p grant provider identity none ++
      [{ kind := if exit ≠ 0 then .failed else .result, payloadHash := artifact.sha256,
         identity := some identity, exitCode := some exit, artifact := some artifact },
        { kind := .exited, payloadHash := segmentHash p grant "exited",
          identity := some identity, exitCode := some exit, artifact := some artifact }]

end Execute

/-! ## Spool and ledger -/

/-- An accepted grant, and what its goroutines have still to append: the one
that executes it, and those that recover it when it is delivered again, each
draft with the grant as delivered. -/
structure Worker where
  grant : LaunchCommand
  todo : List Draft
  recovery : List (LaunchCommand × Draft) := []
  activeMs : Int := 0
  deriving DecidableEq, Repr

/-- The process has been started and its end not been recorded. -/
def Worker.running (k : Worker) : Bool :=
  match k.todo with
  | [] => false
  | draft :: _ => draft.kind ≠ .prepared

/-- `workers` is the grant ledger as well; `last` is how far `PublishAll` has
got, `published` the cursor it has written. -/
structure Source where
  producerId : String
  sequence : Int := 0
  spool : List Event := []
  workers : Table (fun k : Worker => k.grant.commandId) := .empty _
  last : Int := 0
  published : Int := 0

namespace Source
variable (h : Source)

def eventId : String :=
  if h.producerId = "" then "" else h.producerId ++ ":" ++ toString (h.sequence + 1)

/-- The event of `appendStructuredEvent`. -/
def structuredEvent (grant : LaunchCommand) (draft : Draft) : Event where
  version := 1
  producerId := h.producerId
  eventId := h.eventId
  runId := grant.runId
  taskId := grant.taskId
  attemptId := grant.attemptId
  segmentId := grant.segmentId
  workRevision := grant.workRevision
  executionEpoch := grant.executionEpoch
  commandId := grant.commandId
  sequence := h.sequence + 1
  kind := draft.kind
  payloadHash := draft.payloadHash
  process := draft.identity
  exitCode := draft.exitCode
  artifact := draft.artifact
  questionId := if draft.kind = .question then h.eventId ++ ":question" else ""
  questionRevision := draft.fields.questionRevision
  sessionKind := draft.fields.sessionKind
  sessionId := draft.fields.sessionId

def appendStructuredEvent (grant : LaunchCommand) (draft : Draft) : Source :=
  { h with sequence := h.sequence + 1, spool := h.spool ++ [h.structuredEvent grant draft] }

/-- `loadEventSequenceLocked`. -/
def loadEventSequence : Int := (h.spool.map Event.sequence).foldr max h.published

/-- The records of the segment's spool. -/
def records (grant : LaunchCommand) : List Event :=
  h.spool.filter (fun e => e.attemptId = grant.attemptId && e.segmentId = grant.segmentId)

/-- `recoverDuplicateGrant`; no event when the records are another grant's. -/
def recoverDuplicateGrant (p : Platform) (grant : LaunchCommand) : List Draft :=
  match (h.records grant).find? (fun e => e.commandId ≠ grant.commandId || e.kind = .exited) with
  | some _ => []
  | none =>
    if h.records grant = [] then recordLaunchFailed p grant
    else if ∃ e ∈ h.records grant, e.kind = .unknown then []
    else [unknownDraft p grant none]

/-- The grant as the ledger records it. -/
def identityGrant (grant : LaunchCommand) : LaunchCommand := { grant with executionEpoch := 0 }

def setWorker (commandId : String) (f : Worker → Worker) (hf : ∀ k, (f k).grant = k.grant) :
    Source :=
  { h with
    workers := h.workers.update (fun k => k.grant.commandId = commandId) f
      (fun k => congrArg LaunchCommand.commandId (hf k)) }

/-- A grant arrives: a new one is executed, a known one recovered, and one that
contradicts the ledger is refused. -/
def acceptGrant (p : Platform) (grant : LaunchCommand) (provider : String) (observed : Observed) :
    Source :=
  if grant.commandId = "" ∨ grant.reservationId = "" ∨ grant.attemptId = "" ∨
      grant.segmentId = "" then h
  else
    match h.workers.find? grant.commandId with
    | some k =>
      if identityGrant k.grant = identityGrant grant then
        h.setWorker grant.commandId
          (fun k => { k with
            recovery := k.recovery ++ (h.recoverDuplicateGrant p grant).map (Prod.mk grant) })
          (fun _ => rfl)
      else h
    | none =>
      { h with
        workers := (h.workers.insert? ⟨grant, execute p grant provider observed, [], 0⟩).getD
          h.workers }

/-- The goroutine of a grant appends its next event. -/
def append (commandId : String) : Source :=
  match h.workers.find? commandId with
  | some ⟨grant, draft :: todo, _, _⟩ =>
    (h.appendStructuredEvent grant draft).setWorker commandId
      (fun k => { k with todo := todo }) (fun _ => rfl)
  | _ => h

/-- The goroutine that recovers a grant appends its next event. -/
def recover (commandId : String) : Source :=
  match h.workers.find? commandId with
  | some ⟨_, _, (grant, draft) :: recovery, _⟩ =>
    (h.appendStructuredEvent grant draft).setWorker commandId
      (fun k => { k with recovery := recovery }) (fun _ => rfl)
  | _ => h

/-- The process of a grant runs on, at most to the deadline of its grant. -/
def work (commandId : String) (ms : Nat) : Source :=
  h.setWorker commandId
    (fun k => if k.running = true ∧ k.activeMs + ms ≤ k.grant.grantedActiveMs then
      { k with activeMs := k.activeMs + ms } else k)
    (fun k => by split <;> rfl)

/-- The next event `PublishAll` sends. -/
def nextEvent : Option Event := h.spool.find? (fun e => e.sequence = h.last + 1)

/-- The process is gone and started again: goroutines are lost. -/
def restart : Source :=
  { h with
    sequence := h.loadEventSequence
    last := h.published
    workers := h.workers.update (fun _ => true) (fun k => { k with todo := [], recovery := [] }) }

/-! ## Cases -/

section Cases
variable {h} {id : String}

theorem mem_setWorker {f : Worker → Worker} {hf : ∀ k, (f k).grant = k.grant} {k' : Worker} :
    k' ∈ (h.setWorker id f hf).workers ↔
      ∃ k ∈ h.workers, (if k.grant.commandId = id then f k else k) = k' := by
  simp only [setWorker, Table.mem_update, Table.patch, decide_eq_true_eq]

theorem append_cases (h : Source) (id : String) : h.append id = h ∨
    ∃ k ∈ h.workers, k.grant.commandId = id ∧ ∃ draft todo, k.todo = draft :: todo ∧
      h.append id = (h.appendStructuredEvent k.grant draft).setWorker id
        (fun k => { k with todo := todo }) (fun _ => rfl) := by
  unfold append
  split
  · rename_i grant draft todo _ _ hfind
    obtain ⟨hm, hid⟩ := Table.find?_eq_some.mp hfind
    exact .inr ⟨_, hm, hid, draft, todo, rfl, rfl⟩
  · exact .inl rfl

theorem recover_cases (h : Source) (id : String) : h.recover id = h ∨
    ∃ k ∈ h.workers, k.grant.commandId = id ∧ ∃ grant draft recovery,
      k.recovery = (grant, draft) :: recovery ∧
      h.recover id = (h.appendStructuredEvent grant draft).setWorker id
        (fun k => { k with recovery := recovery }) (fun _ => rfl) := by
  unfold recover
  split
  · rename_i grant draft recovery _ hfind
    obtain ⟨hm, hid⟩ := Table.find?_eq_some.mp hfind
    exact .inr ⟨_, hm, hid, grant, draft, recovery, rfl, rfl⟩
  · exact .inl rfl

theorem acceptGrant_cases (h : Source) (p : Platform) (grant : LaunchCommand) (provider : String)
    (observed : Observed) : h.acceptGrant p grant provider observed = h ∨
      (∃ k ∈ h.workers, k.grant.commandId = grant.commandId ∧
        identityGrant k.grant = identityGrant grant ∧
        h.acceptGrant p grant provider observed = h.setWorker grant.commandId
          (fun k => { k with
            recovery := k.recovery ++ (h.recoverDuplicateGrant p grant).map (Prod.mk grant) })
          (fun _ => rfl)) ∨
      ∃ workers, h.workers.insert? ⟨grant, execute p grant provider observed, [], 0⟩ =
          some workers ∧
        h.acceptGrant p grant provider observed = { h with workers := workers } := by
  unfold acceptGrant
  split
  · exact .inl rfl
  · split
    · rename_i k hfind
      obtain ⟨hm, hid⟩ := Table.find?_eq_some.mp hfind
      split
      · rename_i hsame
        exact .inr (.inl ⟨k, hm, hid, hsame, rfl⟩)
      · exact .inl rfl
    · rename_i hnone
      obtain ⟨workers, hi, -⟩ := Table.insert?_isSome (t := h.workers)
        (a := ⟨grant, execute p grant provider observed, [], 0⟩) (Table.find?_eq_none.mp hnone)
      exact .inr (.inr ⟨workers, hi, by rw [hi]; rfl⟩)

end Cases
end Source
end Orchestrator.Host
