import Orchestrator.Library.Json
import Orchestrator.Store.Database
import Mathlib.Algebra.GroupWithZero.Nat

/-!
# Messages on the wire

What `json.Marshal` writes of the messages between coordinator and Hosts.
-/
namespace Orchestrator.Ipc
open Library Store

/-- A string member with `omitempty`. -/
def omitEmpty (name value : String) : List (String × List Char) :=
  if value = "" then [] else [(name, Json.quote value)]

/-- A number member with `omitempty`. -/
def omitZero (name : String) (n : Int) : List (String × List Char) :=
  if n = 0 then [] else [(name, Json.number n)]

/-- A raw message with `omitempty`; what there is of it is written compact. -/
def omitRaw (name raw : String) : List (String × List Char) :=
  if raw = "" then [] else [(name, Json.compact false raw.toList)]

def launchFields (c : LaunchCommand) : List (String × List Char) :=
  [("command_id", Json.quote c.commandId),
    ("host_id", Json.quote c.hostId),
    ("run_id", Json.quote c.runId),
    ("task_id", Json.quote c.taskId),
    ("attempt_id", Json.quote c.attemptId),
    ("segment_id", Json.quote c.segmentId),
    ("work_revision", Json.number c.workRevision),
    ("execution_epoch", Json.number c.executionEpoch),
    ("slot_token", Json.quote c.slotToken),
    ("launch_intent_hash", Json.quote c.launchIntentHash),
    ("reservation_id", Json.quote c.reservationId),
    ("budget_group_id", Json.quote c.budgetGroupId),
    ("granted_active_ms", Json.number c.grantedActiveMs),
    ("deadline_unix_ms", Json.number c.deadlineUnixMs)] ++
  omitRaw "adapter_payload" c.adapterPayload ++
  omitEmpty "question_id" c.questionId ++
  omitZero "question_revision" c.questionRevision ++
  omitEmpty "answer" c.answer ++
  omitEmpty "session_kind" c.sessionKind ++
  omitEmpty "session_id" c.sessionId ++
  [("report_capability_id", Json.quote c.reportCapabilityId)]

def marshalLaunch (c : LaunchCommand) : List Char := Json.object (launchFields c)

/-! ## Sizes -/

/-- What a string member with `omitempty` takes, with the comma after it. -/
def textSize (name value : String) : Nat :=
  if value = "" then 0 else Json.bytes (Json.quote name) + Json.bytes (Json.quote value) + 2

section
variable {name value : String} {fields rest : List (String × List Char)}

/-- Members with what separates them. -/
def memberBytes (fields : List (String × List Char)) : Nat :=
  (fields.map fun f => Json.bytes (Json.member f) + 1).sum

@[simp] theorem memberBytes_nil : memberBytes [] = 0 := rfl

@[simp] theorem memberBytes_cons {field : String × List Char} :
    memberBytes (field :: fields) = Json.bytes (Json.member field) + 1 + memberBytes fields := rfl

@[simp] theorem memberBytes_append :
    memberBytes (fields ++ rest) = memberBytes fields + memberBytes rest := by
  rw [memberBytes, List.map_append, List.sum_append]
  rfl

theorem memberBytes_singleton {text : List Char} :
    memberBytes [(name, text)] = Json.bytes (Json.quote name) + Json.bytes text + 2 := by
  have hmember : Json.bytes (Json.member (name, text)) =
      Json.bytes (Json.quote name) + 1 + Json.bytes text := Json.bytes_member
  rw [memberBytes_cons, hmember, memberBytes_nil]
  omega

@[simp] theorem memberBytes_omitEmpty :
    memberBytes (omitEmpty name value) = textSize name value := by
  unfold omitEmpty textSize
  split
  · rfl
  · exact memberBytes_singleton

end

end Orchestrator.Ipc
