import Orchestrator.Adapter.Protocol
import Orchestrator.Host.Execute

/-!
# The collector of a worker's output

`protocolCollector` reads what a structured worker writes, line by line, and keeps no more than
64 KiB of a line. A longer one is dropped, unless the bytes of a terminal record were seen in it;
of the others each record is accepted in turn, and `Finish` returns the terminal one.
-/
namespace Orchestrator.Host
open Adapter

def providerEventLimit : Nat := 64 * 1024

/-! ## White space -/

/-- `unicode.IsSpace`. -/
def isSpaceRune (c : Char) : Bool :=
  let n := c.toNat
  (9 ≤ n && n ≤ 13) || n = 0x20 || n = 0x85 || n = 0xA0 || n = 0x1680 ||
    (0x2000 ≤ n && n ≤ 0x200A) || n = 0x2028 || n = 0x2029 || n = 0x202F || n = 0x205F ||
    n = 0x3000

def isSpaceByte (b : UInt8) : Bool := (9 ≤ b.toNat && b.toNat ≤ 13) || b = 0x20

/-- The white space that takes two bytes, or three. -/
def isSpacePair (a b : UInt8) : Bool := a = 0xC2 && (b = 0x85 || b = 0xA0)

def isSpaceTriple (a b c : UInt8) : Bool :=
  (a = 0xE1 && b = 0x9A && c = 0x80) ||
  (a = 0xE2 && b = 0x80 && ((0x80 ≤ c.toNat && c.toNat ≤ 0x8A) ||
    c = 0xA8 || c = 0xA9 || c = 0xAF)) ||
  (a = 0xE2 && b = 0x81 && c = 0x9F) ||
  (a = 0xE3 && b = 0x80 && c = 0x80)

/-- What `bytes.TrimSpace` leaves is a prefix of this, and empty only with it. -/
def trimLeft : List UInt8 → List UInt8
  | [] => []
  | a :: rest =>
    if isSpaceByte a then trimLeft rest
    else match rest with
    | [] => [a]
    | b :: rest' =>
      if isSpacePair a b then trimLeft rest'
      else match rest' with
      | [] => a :: rest
      | c :: rest'' => if isSpaceTriple a b c then trimLeft rest'' else a :: rest

/-- The first byte that is not white space is a brace. -/
def opensObject (bs : List UInt8) : Bool := (trimLeft bs).head? = some 0x7B

/-- A carriage return at the end is not part of the line. -/
def trimReturn (bs : List UInt8) : List UInt8 :=
  if bs.getLast? = some 0x0D then bs.dropLast else bs

/-! ## A line -/

/-- The line that is being read. -/
structure Buffer where
  line : List UInt8 := []
  oversized : Bool := false
  critical : Bool := false
  structured : Bool := false
  contentObserved : Bool := false
  markerTail : List UInt8 := []
  deriving DecidableEq, Repr

def ascii (s : String) : List UInt8 := s.toList.map fun c => UInt8.ofNat c.toNat

/-- What marks the line of a terminal record, of any provider. -/
def markers : List (List UInt8) :=
  [ascii "\"type\":\"result\"", ascii "\"event\":\"result\"", ascii "\"type\":\"turn.completed\"",
    ascii "\"type\":\"turn.failed\""]

def compact (bs : List UInt8) : List UInt8 :=
  bs.filter fun b => b ≠ 0x20 && b ≠ 0x09 && b ≠ 0x0D && b ≠ 0x0A

def hasMarker (probe : List UInt8) : Bool := markers.any fun marker => marker <:+: compact probe

namespace Buffer

/-- What is looked for in a chunk: a first brace, and the markers, also across its start. -/
def observe (b : Buffer) (chunk : List UInt8) : Buffer :=
  let first := b.contentObserved = false ∧ trimLeft chunk ≠ []
  let probe := b.markerTail ++ chunk
  { b with
    contentObserved := b.contentObserved || decide first
    structured := if first then opensObject chunk else b.structured
    critical := b.critical || hasMarker probe
    markerTail := probe.drop (probe.length - 128) }

/-- One pass of the loop of `consumePart`, with at most 4096 bytes. -/
def consumeChunk (b : Buffer) (chunk : List UInt8) : Buffer :=
  let b := b.observe chunk
  if b.oversized = true then b
  else if b.line.length + chunk.length > providerEventLimit then
    { b with line := b.line ++ chunk.take (providerEventLimit - b.line.length), oversized := true }
  else { b with line := b.line ++ chunk }

/-- The first `n` chunks. -/
def chunks : Nat → List UInt8 → List (List UInt8)
  | 0, _ => []
  | n + 1, part => part.take 4096 :: chunks n (part.drop 4096)

def consumePart (b : Buffer) (part : List UInt8) : Buffer :=
  (chunks ((part.length + 4095) / 4096) part).foldl consumeChunk b

/-- An oversized line that may be a record that matters. -/
def refused (provider : Provider) (b : Buffer) : Bool :=
  b.oversized && (b.critical || provider = .codex && b.structured)

def dropped (provider : Provider) (b : Buffer) : Bool := b.oversized && !b.refused provider

end Buffer

/-! ## What has been accepted -/

structure Answer where
  terminal : Option Adapter.Event := none
  sessionId : String := ""
  message : String := ""
  sessionObserved : Bool := false
  deriving DecidableEq, Repr

def isAuthoritativeSessionEvent (provider : Provider) (e : Adapter.Event) : Bool :=
  if provider = .grok then e.kind = .message else e.kind = .init

def isTerminal (e : Adapter.Event) : Bool := e.kind = .result || e.kind = .question

/-- What `Finish` returns; a terminal event when there is no error. -/
structure Outcome where
  terminal : Option Adapter.Event := none
  sessionId : String
  err : Option String := none
  deriving DecidableEq, Repr

namespace Answer

/-- The checks of `accept` before the session of the record is taken. -/
def refuses (provider : Provider) (a : Answer) (e : Adapter.Event) : Option String :=
  if e.sessionId ≠ "" ∧ a.sessionId ≠ "" ∧ a.sessionId ≠ e.sessionId then
    some "provider_session_changed"
  else if provider ≠ .codex then none
  else match e.kind with
  | .init => if a.sessionObserved = true then some "provider_session_duplicate" else none
  | .message =>
    if a.sessionObserved = false then some "provider_event_before_session"
    else if a.terminal ≠ none then some "provider_event_after_terminal"
    else none
  | .result | .question =>
    if a.sessionObserved = false then some "provider_event_before_session" else none
  | _ => none

def takeSession (provider : Provider) (a : Answer) (e : Adapter.Event) : Answer :=
  if e.sessionId ≠ "" then
    { a with
      sessionId := e.sessionId
      sessionObserved := a.sessionObserved || isAuthoritativeSessionEvent provider e }
  else a

/-- The rest of `accept`. -/
def record (provider : Provider) (a : Answer) (e : Adapter.Event) : Answer × Option String :=
  if e.kind = .message ∧ provider = .codex ∧ e.text ≠ "" then
    if e.text.utf8ByteSize > providerEventLimit then (a, some "provider_critical_event_too_large")
    else ({ a with message := e.text }, none)
  else if e.kind = .message ∧ provider = .grok ∧ e.text ≠ "" then
    if a.message.utf8ByteSize + e.text.utf8ByteSize > providerEventLimit then
      (a, some "provider_critical_event_too_large")
    else ({ a with message := a.message ++ e.text }, none)
  else if isTerminal e = false then (a, none)
  else if a.terminal ≠ none then (a, some "provider_multiple_terminal_events")
  else ({ a with terminal := some e }, none)

/-- `Finish`, when no error was met. -/
def outcome (provider : Provider) (a : Answer) : Outcome :=
  match a.terminal with
  | none => { sessionId := a.sessionId, err := some "provider_terminal_missing" }
  | some t =>
    let text := if t.text = "" ∧ (provider = .grok ∨ provider = .codex) then a.message else t.text
    let session := if t.sessionId = "" then a.sessionId else t.sessionId
    if provider = .codex ∧ t.status = "completed" ∧ text.toList.all isSpaceRune = true then
      { sessionId := a.sessionId, err := some "provider_result_missing" }
    else if session = "" then { sessionId := "", err := some "provider_session_missing" }
    else { terminal := some { t with text := text, sessionId := session }, sessionId := session }

end Answer

/-! ## The collector -/

/-- `onSession` is the observer once it is installed, as the error that its append returns, if
any; `reported` is the session it was called with. -/
structure Collector where
  provider : Provider
  parser : StreamParser
  buffer : Buffer := {}
  answer : Answer := {}
  err : Option String := none
  droppedOversize : Nat := 0
  onSession : Option (Option String) := none
  observerErr : Bool := false
  sessionReported : Bool := false
  reported : Option (String × String) := none
  deriving DecidableEq, Repr

def newProtocolCollector (provider : Provider) : Collector :=
  { provider := provider
    parser := { provider := provider, lineMax := providerEventLimit, totalMax := 2 ^ 63 - 1 } }

namespace Collector
variable (p : Collector)

def reportSession : Collector :=
  match p.onSession with
  | none => p
  | some appendErr =>
    if p.observerErr = true ∨ p.answer.sessionObserved = false ∨ p.sessionReported = true then p
    else
      let p := { p with
        reported := some (providerSessionKind p.provider.name, p.answer.sessionId) }
      match appendErr with
      | none => { p with sessionReported := true }
      | some message => { p with observerErr := true, err := some message }

/-- The session of a record, which is reported when it is authoritative. -/
def takeSession (e : Adapter.Event) : Collector :=
  let p := { p with answer := p.answer.takeSession p.provider e }
  if e.sessionId ≠ "" ∧ isAuthoritativeSessionEvent p.provider e = true then p.reportSession
  else p

def accept (e : Adapter.Event) : Collector :=
  match p.answer.refuses p.provider e with
  | some message => { p with err := some message }
  | none =>
    let p := p.takeSession e
    let recorded := p.answer.record p.provider e
    { p with answer := recorded.1, err := recorded.2.or p.err }

/-- `finishLine` with a line that is not oversized. -/
def parseLine (line : List UInt8) : Collector :=
  if opensObject line = true then
    match p.parser.parse (trimReturn line) with
    | .ok (parser, event) => { p with parser := parser }.accept event
    | .error message => { p with err := some message }
  else p

def finishLine : Collector :=
  let p' := if p.err ≠ none then p
    else if p.buffer.oversized = true then
      if p.buffer.refused p.provider = true then
        { p with err := some "provider_critical_event_too_large" }
      else { p with droppedOversize := p.droppedOversize + 1 }
    else p.parseLine p.buffer.line
  { p' with buffer := {} }

/-- The parts of what is written, the last of which goes on. -/
def parts : List UInt8 → List (List UInt8)
  | [] => [[]]
  | b :: bs =>
    if b = 0x0A then [] :: parts bs
    else match parts bs with
    | part :: rest => (b :: part) :: rest
    | [] => [[b]]

def consumePart (part : List UInt8) : Collector :=
  { p with buffer := p.buffer.consumePart part }

def writeParts (p : Collector) : List (List UInt8) → Collector
  | [] => p
  | [part] => p.consumePart part
  | part :: rest => (p.consumePart part).finishLine.writeParts rest

def write (data : List UInt8) : Collector := p.writeParts (parts data)

def setSessionObserver (appendErr : Option String) : Collector :=
  if p.onSession ≠ none then p else { p with onSession := some appendErr }.reportSession

/-- What `Finish` does to the last line, when it is not complete. -/
def drain : Collector :=
  if p.buffer.line ≠ [] ∨ p.buffer.oversized = true then p.finishLine else p

def finish : Outcome :=
  match p.drain.err with
  | some message => { sessionId := p.drain.answer.sessionId, err := some message }
  | none => p.drain.answer.outcome p.provider

end Collector

/-- What happens to a collector before `Finish`. -/
inductive Collector.Input where
  | write (data : List UInt8)
  | observe (appendErr : Option String)
  deriving DecidableEq, Repr

def Collector.step (p : Collector) : Input → Collector
  | .write data => p.write data
  | .observe appendErr => p.setSessionObserver appendErr

def Collector.run (p : Collector) (inputs : List Input) : Collector := inputs.foldl step p

end Orchestrator.Host
