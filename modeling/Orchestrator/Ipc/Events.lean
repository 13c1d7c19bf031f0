import Orchestrator.Ipc.Messages

/-!
# Events on the wire

What `json.Marshal` writes of an event: the record a spool file holds, with a
line feed after it, and the payload of the frame that publishes it.
-/
namespace Orchestrator.Ipc
open Library

/-- A pointer member with `omitempty`. -/
def omitNil {α : Type} (name : String) (f : α → List Char) : Option α → List (String × List Char)
  | none => []
  | some a => [(name, f a)]

def marshalProcess (p : ProcessIdentity) : List Char :=
  Json.object [("pid", Json.number p.pid),
    ("birth", Json.quote p.birth),
    ("pgid", Json.number p.pgid)]

def marshalArtifact (a : ArtifactRef) : List Char :=
  Json.object [("id", Json.quote a.id),
    ("path", Json.quote a.path),
    ("size", Json.number a.size),
    ("sha256", Json.quote a.sha256)]

def eventFields (e : Event) : List (String × List Char) :=
  [("version", Json.number e.version)] ++
  omitEmpty "producer_id" e.producerId ++
  omitEmpty "event_id" e.eventId ++
  omitZero "event_revision" e.eventRevision ++
  omitEmpty "action_slot" e.actionSlot ++
  [("run_id", Json.quote e.runId),
    ("task_id", Json.quote e.taskId),
    ("attempt_id", Json.quote e.attemptId),
    ("segment_id", Json.quote e.segmentId)] ++
  omitZero "work_revision" e.workRevision ++
  omitZero "execution_epoch" e.executionEpoch ++
  omitEmpty "command_id" e.commandId ++
  [("sequence", Json.number e.sequence),
    ("kind", Json.quote e.kind.text),
    ("payload_hash", Json.quote e.payloadHash)] ++
  omitNil "process" marshalProcess e.process ++
  omitNil "exit_code" Json.number e.exitCode ++
  omitNil "artifact" marshalArtifact e.artifact ++
  omitZero "active_ms" e.activeMs ++
  omitEmpty "question_id" e.questionId ++
  omitZero "question_revision" e.questionRevision ++
  omitEmpty "question_kind" e.questionKind ++
  omitEmpty "session_kind" e.sessionKind ++
  omitEmpty "session_id" e.sessionId

def marshalEvent (e : Event) : List Char := Json.object (eventFields e)

/-! ## Sizes -/

/-- The bytes of a spool file. -/
def recordSize (e : Event) : Nat := Json.bytes (marshalEvent e) + 1

/-- What the session adds to an event that had none. -/
def sessionSize (sessionKind sessionId : String) : Nat :=
  textSize "session_kind" sessionKind + textSize "session_id" sessionId

section
variable {e : Event} {sessionKind sessionId : String}

/-- Another session changes no other member. -/
theorem eventFields_session : ∃ fields,
    eventFields e = fields ++
      (omitEmpty "session_kind" e.sessionKind ++ omitEmpty "session_id" e.sessionId) ∧
    eventFields { e with sessionKind := sessionKind, sessionId := sessionId } = fields ++
      (omitEmpty "session_kind" sessionKind ++ omitEmpty "session_id" sessionId) := by
  refine ⟨_, List.append_assoc .., List.append_assoc ..⟩

theorem eventFields_ne_nil : eventFields e ≠ [] := by
  unfold eventFields
  simp

theorem bytes_marshalEvent :
    Json.bytes (marshalEvent e) = memberBytes (eventFields e) + 1 :=
  Json.bytes_object eventFields_ne_nil

/-- An event that is written again under a session takes no more than the session does. -/
theorem bytes_session_le :
    Json.bytes (marshalEvent { e with sessionKind := sessionKind, sessionId := sessionId }) ≤
      Json.bytes (marshalEvent e) + sessionSize sessionKind sessionId := by
  obtain ⟨fields, hbefore, hafter⟩ := @eventFields_session e sessionKind sessionId
  rw [bytes_marshalEvent, bytes_marshalEvent, hbefore, hafter]
  simp only [memberBytes_append, memberBytes_omitEmpty, sessionSize]
  omega

theorem textSize_le {name value : String} :
    textSize name value ≤ Json.bytes (Json.quote name) + 6 * value.utf8ByteSize + 4 := by
  have hquote := @Json.bytes_quote_le value
  unfold textSize
  split <;> omega

end

end Orchestrator.Ipc
