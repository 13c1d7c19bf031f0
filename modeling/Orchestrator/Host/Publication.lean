import Orchestrator.Events.Log
import Orchestrator.Host.Execute
import Orchestrator.Host.Spool
import Mathlib.Data.List.Dedup

/-!
# Publication

One source Host, the spools of its segments and the coordinator. Segments append
to their own spools under a common sequence. `PublishAll` lists the spools,
reads them one after another, sends what is new in the order of its sequence,
and moves the cursors once the coordinator has acknowledged it: first those of
the spools, then the published one. Only `PublishAll` excludes itself: appends
fall anywhere in between. A message may reach the coordinator late, twice or
never, and the Host may die at any point, which leaves its files behind.
-/
namespace Orchestrator.Host
open Library Store

/-- An event as `PublishAll` read it, with the cursor of its spool. -/
structure Pending where
  dir : Dir
  event : Event
  acked : Int
  deriving DecidableEq, Repr

inductive PublishError where
  | spool (error : SpoolError)
  | eventIdentityMissing | eventSequenceGap | invalidDurableAck
  /-- A file operation or a send fails. -/
  | interrupted
  deriving DecidableEq, Repr

/-- The variables of `PublishAll`; `last` starts as `cursor`. -/
structure Call where
  epoch : Nat := 0
  originalCursor : Int := 0
  last : Int := 0
  pending : List Pending := []

/-- How far `PublishAll` has come. -/
inductive Phase where
  | returned (error : Option PublishError)
  | listing (attempts : List String) (entries : List Dir)
  | reading (entries : List Dir)
  | sending (items : List Pending)
  | awaiting (item : Pending) (items : List Pending)
  | acking (maxima : List (Dir × Int))
  | archiving (dir : Dir) (links removals : List Event) (maxima : List (Dir × Int))
  | writing
  deriving DecidableEq, Repr

/-- What one `PublishAll` has sent, and the cursor it started from. -/
structure Sends where
  cursor : Int
  sequences : List Int
  deriving DecidableEq, Repr

/-- `sequence`, `phase` and `call` are lost with the process; `flight` and `acks`
are the messages sent so far; `appended` and `sends` record the run, `sends` with
the latest call first. -/
structure Publication where
  store : State
  spools : Table Spool.dir := .empty _
  published : Int := 0
  sequence : Option Int := none
  phase : Phase := .returned none
  call : Call := {}
  flight : List Event := []
  acks : List DurableAck := []
  appended : List Event := []
  sends : List Sends := []

namespace Publication

def fresh (limits : ConcurrencyLimits) : Publication := { store := State.fresh limits }

/-! ## Appending -/

/-- `loadEventSequenceLocked`. -/
def loadEventSequence (s : Publication) (host : String) : Except PublishError Int :=
  match s.sequence with
  | some n => .ok n
  | none => do
    let records ← (s.spools.rows.mapM Spool.read).mapError .spool
    require (∀ e ∈ records.flatten, e.producerId = host ∧ 1 ≤ e.sequence) .eventIdentityMissing
    .ok ((records.flatten.map Event.sequence).foldr max s.published)

/-- The event is durable before its sequence counts as used. -/
def appendStructuredEvent (s : Publication) (host : String) (grant : LaunchCommand)
    (draft : Draft) : Publication :=
  match s.loadEventSequence host, s.spools.find? (grant.attemptId, grant.segmentId) with
  | .ok n, some spool =>
    let e := ({ producerId := host, sequence := n } : Source).structuredEvent grant draft
    match spool.append e with
    | .ok spool => { s with
        spools := s.spools.put spool
        sequence := some (n + 1)
        appended := s.appended ++ [e] }
    | .error _ => { s with sequence := some n }
  | _, _ => s

def openSpool (s : Publication) (attemptId segmentId : String) : Publication :=
  match s.spools.insert? { attemptId := attemptId, segmentId := segmentId } with
  | some spools => { s with spools := spools }
  | none => s

/-! ## Publishing -/

def attempts (s : Publication) : List String :=
  (s.spools.rows.map Spool.attemptId).dedup.insertionSort (· ≤ ·)

def segments (s : Publication) (attemptId : String) : List Dir :=
  ((s.spools.rows.filter (fun spool => spool.attemptId = attemptId)).map Spool.dir).insertionSort
    (fun a b => a.2 ≤ b.2)

def fail (s : Publication) (error : PublishError) : Publication :=
  { s with phase := .returned (some error) }

def publishAll (s : Publication) (epoch : Nat) : Publication :=
  match s.phase with
  | .returned _ => { s with phase := .listing s.attempts [], call := { epoch := epoch } }
  | _ => s

def readSpool (s : Publication) (host : String) (dir : Dir) (entries : List Dir) : Publication :=
  match s.spools.find? dir with
  | none => s.fail .interrupted
  | some spool =>
    match spool.readAfter spool.acked with
    | .error e => s.fail (.spool e)
    | .ok events =>
      if ∀ e ∈ events, e.producerId = host ∧ e.eventId ≠ "" then
        { s with
          phase := .reading entries
          call := { s.call with
            last := max s.call.last spool.acked
            pending := s.call.pending ++ (events.filter (fun e => spool.acked < e.sequence)).map
              (fun e => ⟨dir, e, spool.acked⟩) } }
      else s.fail .eventIdentityMissing

def sorted (pending : List Pending) : List Pending :=
  pending.insertionSort (fun a b => a.event.sequence ≤ b.event.sequence)

/-- The latest call has sent `n`. -/
def recordSend (n : Int) : List Sends → List Sends
  | [] => []
  | c :: sends => { c with sequences := c.sequences ++ [n] } :: sends

def send (s : Publication) (item : Pending) (items : List Pending) : Publication :=
  if item.event.sequence ≤ s.call.last then { s with phase := .sending items }
  else if item.event.sequence ≠ s.call.last + 1 then s.fail .eventSequenceGap
  else { s with
    phase := .awaiting item items
    flight := s.flight ++ [{ item.event with executionEpoch := s.call.epoch }]
    sends := recordSend item.event.sequence s.sends }

def acknowledges (ack : DurableAck) (e : Event) : Prop :=
  ack.status = "durable" ∧ ack.producerId = e.producerId ∧ ack.eventId = e.eventId ∧
    ack.payloadHash = e.payloadHash ∧ e.sequence ≤ ack.ackedThrough

instance (ack : DurableAck) (e : Event) : Decidable (acknowledges ack e) :=
  inferInstanceAs (Decidable (_ ∧ _))

/-- An answer to the event that was sent last. -/
def reply (s : Publication) (ack : DurableAck) : Publication :=
  match s.phase with
  | .awaiting item items =>
    if ack ∈ s.acks then
      if acknowledges ack item.event then
        { s with phase := .sending items, call := { s.call with last := item.event.sequence } }
      else s.fail .invalidDurableAck
    else s
  | _ => s

def raise (maxima : List (Dir × Int)) (item : Pending) : List (Dir × Int) :=
  if ((maxima.find? (fun m => m.1 = item.dir)).map Prod.snd).getD 0 < item.event.sequence then
    maxima.filter (fun m => m.1 ≠ item.dir) ++ [(item.dir, item.event.sequence)]
  else maxima

def maxima (pending : List Pending) (last : Int) : List (Dir × Int) :=
  (pending.filter (fun item => item.event.sequence ≤ last ∧ item.acked < item.event.sequence)).foldl
    raise []

/-- An operation on the files of one spool. -/
def onSpool (s : Publication) (dir : Dir) (f : Spool → Except SpoolError Spool)
    (next : Spool → Phase) : Publication :=
  match s.spools.find? dir with
  | none => s.fail .interrupted
  | some spool =>
    match f spool with
    | .error e => s.fail (.spool e)
    | .ok spool => { s with spools := s.spools.put spool, phase := next spool }

/-- `AckThrough`; the spools come in the order of a map. -/
def ackThrough (s : Publication) (dir : Dir) : Publication :=
  match s.phase with
  | .acking maxima =>
    match maxima.find? (fun m => m.1 = dir) with
    | some m => s.onSpool dir (fun spool => spool.writeAck m.2) fun spool =>
        .archiving dir (spool.archivable m.2) (spool.archivable m.2)
          (maxima.filter (fun m => m.1 ≠ dir))
    | none => s
  | _ => s

/-- The next operation of `PublishAll`, other than waiting for an answer or
choosing a spool. -/
def advance (s : Publication) (host : String) : Publication :=
  match s.phase with
  | .returned _ | .awaiting _ _ | .acking (_ :: _) => s
  | .listing [] entries => { s with
      phase := .reading entries
      call := { s.call with originalCursor := s.published, last := s.published } }
  | .listing (attempt :: attempts) entries =>
    { s with phase := .listing attempts (entries ++ s.segments attempt) }
  | .reading [] => { s with
      phase := .sending (sorted s.call.pending)
      sends := ⟨s.call.last, []⟩ :: s.sends }
  | .reading (dir :: entries) => s.readSpool host dir entries
  | .sending [] =>
    if s.call.last = s.call.originalCursor then { s with phase := .returned none }
    else { s with phase := .acking (maxima s.call.pending s.call.last) }
  | .sending (item :: items) => s.send item items
  | .acking [] => { s with phase := .writing }
  | .archiving dir (e :: links) removals maxima =>
    s.onSpool dir (fun spool => spool.link e) fun _ => .archiving dir links removals maxima
  | .archiving dir [] (e :: removals) maxima =>
    s.onSpool dir (fun spool => .ok (spool.unlink e)) fun _ => .archiving dir [] removals maxima
  | .archiving _ [] [] maxima => { s with phase := .acking maxima }
  | .writing => { s with phase := .returned none, published := s.call.last }

/-- A file operation or a send fails, wherever `PublishAll` is. -/
def interrupt (s : Publication) : Publication :=
  match s.phase with
  | .returned _ => s
  | _ => s.fail .interrupted

/-- The process dies and another one starts. -/
def crash (s : Publication) : Publication :=
  { s with sequence := none, phase := .returned none }

/-! ## The coordinator -/

/-- A message arrives; a refusal is answered as well, which fails the send. -/
def commit (d : DB) (env : Env) (s : Publication) (e : Event) : Publication :=
  if e ∈ s.flight then
    match d.commitHostEvent env s.store e with
    | .ok (store, ack) => { s with store := store, acks := s.acks ++ [ack] }
    | .error _ => s
  else s

/-- Anything else the coordinator does; other Hosts commit their own events. -/
def control (d : DB) (host : String) (s : Publication) (op : Op) : Publication :=
  if ∀ e, op.event = some e → e.producerId ≠ host then { s with store := d.step s.store op }
  else s

inductive Action where
  | openSpool (attemptId segmentId : String)
  | append (grant : LaunchCommand) (draft : Draft)
  | publishAll (epoch : Nat)
  | advance
  | reply (ack : DurableAck)
  | ackThrough (dir : Dir)
  | interrupt
  | crash
  | commit (env : Env) (e : Event)
  | control (op : Op)

def step (d : DB) (host : String) (s : Publication) : Action → Publication
  | .openSpool attemptId segmentId => s.openSpool attemptId segmentId
  | .append grant draft => s.appendStructuredEvent host grant draft
  | .publishAll epoch => s.publishAll epoch
  | .advance => s.advance host
  | .reply ack => s.reply ack
  | .ackThrough dir => s.ackThrough dir
  | .interrupt => s.interrupt
  | .crash => s.crash
  | .commit env e => commit d env s e
  | .control op => control d host s op

end Publication
end Orchestrator.Host
