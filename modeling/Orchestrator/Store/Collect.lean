import Orchestrator.Store.Delivery
import Mathlib.Data.List.Sort

/-!
# Collecting what waits for delivery
-/
namespace Orchestrator.Store
open Library

/-! ## Cursors -/

def maxInt64 : Nat := 2 ^ 63 - 1

/-- The digits of `strconv.ParseInt` in base 10, up to the largest `int64`. -/
def parseDigits (cs : List Char) : Option Nat :=
  if cs ≠ [] ∧ cs.all Char.isDigit = true ∧ Nat.ofDigitChars 10 cs 0 ≤ maxInt64 then
    some (Nat.ofDigitChars 10 cs 0)
  else none

/-- `strconv.ParseInt`, where the result is at least 1. -/
def parseOrdinal (cs : List Char) : Option Nat :=
  match cs with
  | '+' :: cs => parseDigits cs
  | cs => parseDigits cs

def Platform.cursorProof (p : Platform) (taskId : String) (value : List Char) : List Char :=
  (p.runtimeHash (taskId ++ "\x00" ++ String.ofList value)).toList.take 24

def cursorPrefix : List Char := "delivery-v1-".toList

def Platform.deliveryCursor (p : Platform) (taskId : String) (ordinal : Nat) : String :=
  String.ofList (cursorPrefix ++ Nat.toDigits 10 ordinal ++
    '-' :: p.cursorProof taskId (Nat.toDigits 10 ordinal))

/-- What stands before the last dash and what after it. -/
def splitLastDash (cs : List Char) : Option (List Char × List Char) :=
  let proof := (cs.reverse.takeWhile (· ≠ '-')).reverse
  match cs.reverse.dropWhile (· ≠ '-') with
  | [] => none
  | _ :: value => some (value.reverse, proof)

/-- `none` is `invalid_cursor`. -/
def Platform.parseDeliveryCursor (p : Platform) (taskId cursor : String) : Option Nat :=
  if cursor = "" then some 0
  else do
    let remainder ← if cursorPrefix <+: cursor.toList
      then some (cursor.toList.drop cursorPrefix.length) else none
    let (value, proof) ← splitLastDash remainder
    let ordinal ← if value ≠ [] then parseOrdinal value else none
    if 1 ≤ ordinal ∧ proof = p.cursorProof taskId value then some ordinal else none

/-! ## CollectPending -/

def collectPageEvents : Nat := 32
def collectPageBytes : Nat := 48 * 1024

/-- A row of the query. The page drops the ordinal. -/
structure PendingRow where
  ordinal : Nat
  event : Event
  deriving DecidableEq, Repr

structure PendingPage where
  events : List Event
  nextCursor : String
  deriving DecidableEq, Repr

def RuntimeEvent.delivered (r : RuntimeEvent) : Event :=
  { r.body with eventRevision := r.eventRevision, actionSlot := r.actionSlot }

def ReportEvent.delivered (r : ReportEvent) : Event :=
  { r.body with eventRevision := r.eventRevision, actionSlot := r.actionSlot }

def ReportEvent.deliverable (r : ReportEvent) (includeDiagnostics : Bool) : Bool :=
  r.deliveryStatus = .pending || (includeDiagnostics && r.kind = .progress)

/-- The two halves of the union, with the ids they are joined by. -/
def State.deliverable (s : State) (taskId : String) (includeDiagnostics : Bool) :
    List (String × Event) :=
  (s.runtimeEvents.rows.filter (fun r => r.taskId = taskId && r.deliveryStatus = .pending)).map
      (fun r => (r.eventId, r.delivered)) ++
    (s.reportEvents.rows.filter (fun r => r.deliverable includeDiagnostics &&
      (s.reportCapabilities.find? r.capabilityId).any (fun c => c.taskId = taskId))).map
        (fun r => (r.eventId, r.delivered))

/-- The rows of a task in delivery order. -/
def State.pendingRows (s : State) (taskId : String) (includeDiagnostics : Bool) : List PendingRow :=
  ((s.deliveryOrder.rows.filter (fun o => o.taskId = taskId)).flatMap fun o =>
    ((s.deliverable taskId includeDiagnostics).filter (fun x => x.1 = o.eventId)).map
      (fun x => ⟨o.ordinal, x.2⟩)).insertionSort (fun a b => a.ordinal ≤ b.ordinal)

/-- A page being filled: its rows, their bytes and the cursor it will carry. -/
structure PageBuffer where
  rows : List PendingRow := []
  bytes : Nat := 0
  next : Option Nat := none

def PageBuffer.lastOrdinal (b : PageBuffer) : Nat := (b.rows.getLast?.map PendingRow.ordinal).getD 0

/-- The page has no place for another event of this size. -/
def PageBuffer.full (b : PageBuffer) (limit encoded : Nat) : Prop :=
  limit ≤ b.rows.length ∨ (0 < b.rows.length ∧ collectPageBytes < b.bytes + encoded + 1)

instance (b : PageBuffer) (limit encoded : Nat) : Decidable (b.full limit encoded) :=
  inferInstanceAs (Decidable (_ ∨ _))

def Platform.fillPage (p : Platform) (limit : Nat) (b : PageBuffer) : List PendingRow → PageBuffer
  | [] => b
  | row :: rows =>
    if b.full limit (p.encodedLen row.event) then { b with next := some b.lastOrdinal }
    else p.fillPage limit { b with
      rows := b.rows ++ [row]
      bytes := b.bytes + p.encodedLen row.event + 1 } rows

def pageLimit (limit : Int) : Nat :=
  if limit < 1 ∨ collectPageEvents < limit then collectPageEvents else limit.toNat

def Platform.collectPage (p : Platform) (s : State) (taskId : String) (ordinal : Nat) (limit : Int)
    (includeDiagnostics : Bool) : PageBuffer :=
  p.fillPage (pageLimit limit) {} (((s.pendingRows taskId includeDiagnostics).filter
    (fun row => ordinal < row.ordinal)).take (pageLimit limit + 1))

/-- The rows of the page, before it is sent. -/
def Platform.collectRows (p : Platform) (s : State) (taskId cursor : String) (limit : Int)
    (includeDiagnostics : Bool) : Option PageBuffer :=
  (p.parseDeliveryCursor taskId cursor).map fun ordinal =>
    p.collectPage s taskId ordinal limit includeDiagnostics

def Platform.nextCursor (p : Platform) (taskId : String) (b : PageBuffer) : String :=
  (b.next.map (p.deliveryCursor taskId)).getD ""

def Platform.collectPending (p : Platform) (s : State) (taskId cursor : String) (limit : Int)
    (includeDiagnostics : Bool) : Option PendingPage :=
  (p.collectRows s taskId cursor limit includeDiagnostics).map fun b =>
    ⟨b.rows.map PendingRow.event, p.nextCursor taskId b⟩

end Orchestrator.Store
