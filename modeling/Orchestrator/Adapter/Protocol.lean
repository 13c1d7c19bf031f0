import Orchestrator.Library.JsonReader
import Mathlib.Data.List.Infix
import Mathlib.Algebra.Group.Nat.Defs

/-!
# Provider records

`ParseEvent`: one line of a worker's output, as the provider writes it, projected to an event.
Each provider has its own records and checks. `StreamParser` adds up what it has parsed.
-/
namespace Orchestrator.Adapter
open Library JsonReader

inductive Provider where
  | claude | agy | grok | codex
  deriving DecidableEq, Repr

def Provider.name : Provider → String
  | .claude => "claude-code"
  | .agy => "antigravity-cli"
  | .grok => "grok-build"
  | .codex => "codex-cli"

inductive EventKind where
  | init | progress | message | question | result | diagnostic | unknown
  deriving DecidableEq, Repr

structure Event where
  kind : EventKind
  sessionId : String := ""
  status : String := ""
  text : String := ""
  deriving DecidableEq, Repr

abbrev Fields := List (List Char × Value)

/-! ## Fields -/

def stringField (object : Fields) (name : String) : Except String String :=
  match get? object name with
  | none => .error ("event_" ++ name ++ "_missing")
  | some (.string (c :: s)) => .ok (String.ofList (c :: s))
  | some _ => .error ("event_" ++ name ++ "_invalid")

/-- A `null` leaves the empty string. -/
def stringFieldOptional (object : Fields) (name : String) : Except String String :=
  match get? object name with
  | none | some .null => .ok ""
  | some (.string s) => .ok (String.ofList s)
  | some _ => .error ("event_" ++ name ++ "_invalid")

def stringFieldEitherOptional (object : Fields) (first second : String) : Except String String :=
  if (get? object first).isSome then stringFieldOptional object first
  else if (get? object second).isSome then stringFieldOptional object second
  else .ok ""

/-- `json.Unmarshal` of a field into a map; a `null` leaves it nil. -/
def mapField (object : Fields) (name : String) : Option (Option Fields) :=
  match get? object name with
  | some (.object fields) => some (some fields)
  | some .null => some none
  | _ => none

/-! ## Checks -/

def safeID (value : String) : Bool :=
  value ≠ "" && value.utf8ByteSize ≤ 256 &&
    value.toList.all fun c => 0x21 ≤ c.toNat && c.toNat ≤ 0x7E && c ≠ '/' && c ≠ '\\'

def validClaudeStatus (status : String) : Bool :=
  status = "success" || "error".toList.isPrefixOf status.toList ||
    "cancel".toList <:+: status.toList || status = "interrupted"

def validAGYStatus (status : String) : Bool :=
  ["SUCCESS", "ERROR", "CANCELED", "INTERRUPTED", "INVALID", "WAITING", "RUNNING"].contains status

/-- A number that is read into an `int64` that is not negative. -/
def validCount : Option Value → Bool
  | some (.number raw) =>
    raw = [0x2D, 0x30] ||
      raw.all isDigit && raw.foldl (fun n b => n * 10 + (b.toNat - 0x30)) 0 < 2 ^ 63
  | _ => false

def validateCodexUsage (object : Fields) : Bool :=
  match mapField object "usage" with
  | some (some usage) =>
    ["input_tokens", "cached_input_tokens", "cache_write_input_tokens", "output_tokens",
      "reasoning_output_tokens"].all fun name => validCount (get? usage name)
  | _ => false

/-! ## Providers -/

def parseCodexItem (object : Fields) : Except String Event :=
  match mapField object "item" with
  | some (some item) => do
    let _ ← stringField item "id"
    let itemType ← stringField item "type"
    if itemType ≠ "agent_message" then return { kind := .diagnostic }
    let text ← stringField item "text"
    return { kind := .message, text := text }
  | _ => .error "event_item_invalid"

def parseCodexFailure (object : Fields) : Except String Event :=
  match mapField object "error" with
  | some (some failure) => do
    let message ← stringField failure "message"
    return { kind := .result, status := "failed", text := message }
  | _ => .error "event_error_invalid"

def parseCodex (object : Fields) : Except String Event := do
  let typeName ← stringField object "type"
  if typeName = "thread.started" then
    let session ← stringField object "thread_id"
    if safeID session then return { kind := .init, sessionId := session }
    else throw "event_thread_id_invalid"
  else if typeName = "item.completed" then parseCodexItem object
  else if typeName = "turn.completed" then
    if validateCodexUsage object then return { kind := .result, status := "completed" }
    else throw "event_usage_invalid"
  else if typeName = "turn.failed" then parseCodexFailure object
  else if typeName = "error" then
    let message ← stringField object "message"
    return { kind := .diagnostic, status := "error", text := message }
  else return { kind := .diagnostic }

def parseClaude (object : Fields) : Except String Event := do
  let typeName ← stringField object "type"
  let session ← stringFieldOptional object "session_id"
  if typeName = "system" then
    let subtype ← stringFieldOptional object "subtype"
    return { kind := if subtype = "init" then .init else .diagnostic, sessionId := session }
  else if typeName = "result" then
    let subtype ← stringFieldOptional object "subtype"
    if validClaudeStatus subtype then
      let text ← stringFieldOptional object "result"
      return { kind := .result, sessionId := session, status := subtype, text := text }
    else throw "event_status_invalid"
  else if typeName = "assistant" ∨ typeName = "user" then
    return { kind := .message, sessionId := session }
  else return { kind := .unknown, sessionId := session }

/-- A nil map has no fields. -/
def parseAGYResult (object : Fields) : Except String Event :=
  match mapField object "result" with
  | some value => do
    let value := value.getD []
    let session ← stringField value "conversation_id"
    let status ← stringField value "status"
    if validAGYStatus status then
      let text ← if status = "SUCCESS" ∨ status = "WAITING" then stringField value "response"
        else stringFieldOptional value "response"
      return {
        kind := if status = "WAITING" then .question else .result
        sessionId := session, status := status, text := text }
    else throw "event_status_invalid"
  | none => .error "event_result_invalid"

def parseAGY (object : Fields) : Except String Event := do
  let eventName ← stringField object "event"
  if eventName = "init" then
    let session ← stringField object "conversation_id"
    return { kind := .init, sessionId := session }
  else if eventName = "step_update" then
    match mapField object "step_update" with
    | some value =>
      let session ← stringField (value.getD []) "conversation_id"
      let text ← stringFieldOptional (value.getD []) "text_delta"
      return { kind := .progress, sessionId := session, text := text }
    | none => throw "event_step_invalid"
  else if eventName = "result" then parseAGYResult object
  else return { kind := .unknown }

def parseGrok (object : Fields) : Except String Event := do
  let typeName ← stringField object "type"
  let session ← stringFieldEitherOptional object "sessionId" "session_id"
  if typeName = "text" then
    let text ← stringFieldOptional object "data"
    return { kind := .message, sessionId := session, text := text }
  else if typeName = "end" then
    let status ← stringFieldOptional object "stopReason"
    return { kind := .result, sessionId := session, status := status }
  else if typeName = "error" then
    return { kind := .result, sessionId := session, status := "error" }
  else if typeName = "result" then
    let status ← stringFieldOptional object "status"
    let text ← stringFieldOptional object "text"
    let text ← if text = "" then stringFieldOptional object "result" else pure text
    return { kind := .result, sessionId := session, status := status, text := text }
  else return { kind := .unknown }

def parseObject (object : Fields) : Provider → Except String Event
  | .claude => parseClaude object
  | .agy => parseAGY object
  | .grok => parseGrok object
  | .codex => parseCodex object

/-- A record that is one object, whatever its length. -/
def parseRecord (provider : Provider) (line : List UInt8) : Except String Event :=
  match decode line with
  | some (.object object, rest) =>
    if rest.all isSpace then parseObject object provider else .error "event_multiple_json"
  | _ => .error "event_invalid_json"

def ParseEvent (provider : Provider) (line : List UInt8) (maxBytes : Nat) : Except String Event :=
  if maxBytes = 0 ∨ maxBytes < line.length then .error "event_too_large"
  else parseRecord provider line

/-! ## Streams -/

structure StreamParser where
  provider : Provider
  lineMax : Nat
  totalMax : Nat
  total : Nat := 0
  deriving DecidableEq, Repr

def StreamParser.parse (p : StreamParser) (line : List UInt8) :
    Except String (StreamParser × Event) := do
  if p.lineMax = 0 ∨ p.totalMax = 0 then throw "stream_limits_invalid"
  if p.lineMax < line.length ∨ p.totalMax < p.total + line.length then
    throw "stream_output_limit"
  let event ← ParseEvent p.provider line p.lineMax
  return ({ p with total := p.total + line.length }, event)

end Orchestrator.Adapter
