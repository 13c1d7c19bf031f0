import Orchestrator.Host.Spool
import Orchestrator.Ipc.Events
import Orchestrator.Library.Run

/-!
# Spool files

`Append` and `AckThrough`, one file operation after another. An event is written to
a stage named by its sequence and the process, and linked to its own name once it is
whole. An operation may fail, and the process may die before any of them; another
one takes over what is on disk.
-/
namespace Orchestrator.Host.Files
open Library

inductive FileError where
  | invalidEvent | conflict | eventTooLarge | invalidAck | staleAck
  /-- An operation of the file system fails. -/
  | io
  deriving DecidableEq, Repr

/-- The files `Read` looks for, the stages `.event-<sequence>-<pid>.tmp`, and whether
there is a `.ack.json.tmp`. -/
structure Disk where
  spool : Spool
  stages : List (Int × Nat) := []
  ackStage : Bool := false

/-! ## Reading -/

def maxRecord : Nat := 64 * 1024

def checkRecord (e : Event) : Except FileError Unit :=
  require (Ipc.recordSize e ≤ maxRecord) .eventTooLarge

namespace Disk

def readEvents (d : Disk) (after : Int) (history : Bool) : Except FileError (List Event) := do
  let found ← Spool.readFiles checkRecord .conflict [] (d.spool.filesAfter after history)
  .ok (Spool.bySequence found)

def read (d : Disk) : Except FileError (List Event) := d.readEvents 0 true

def readAfter (d : Disk) (after : Int) : Except FileError (List Event) := d.readEvents after false

/-- The first of two equal contents wins. -/
def compare (old e : Event) : Except FileError Unit := require (old = e) .conflict

def unstage (d : Disk) (sequence : Int) (pid : Nat) : Disk :=
  { d with stages := d.stages.filter (· ≠ (sequence, pid)) }

end Disk

/-! ## Append -/

inductive AppendOp where
  | readLive | readArchived | create | write | sync | close | link | compare | remove | syncDir
  deriving DecidableEq, Repr

/-- Where an operation leads: to the next one, or back to the caller. -/
abbrev Next (op : Type) := op ⊕ Except FileError Unit

def validEvent (e : Event) : Prop :=
  e.version = 1 ∧ 1 ≤ e.sequence ∧ e.attemptId ≠ "" ∧ e.segmentId ≠ ""

instance (e : Event) : Decidable (validEvent e) := inferInstanceAs (Decidable (_ ∧ _))

/-- The operation succeeds. -/
def Disk.append (d : Disk) (pid : Nat) (e : Event) : AppendOp → Disk × Next AppendOp
  | .readLive =>
    match d.spool.events.find? e.sequence with
    | some old => (d, .inr (Disk.compare old e))
    | none => (d, .inl .readArchived)
  | .readArchived =>
    match d.spool.archive.find? e.sequence with
    | some old => (d, .inr (Disk.compare old e))
    | none => (d, .inl .create)
  | .create =>
    if (e.sequence, pid) ∈ d.stages then (d, .inr (.error .conflict))
    else ({ d with stages := (e.sequence, pid) :: d.stages }, .inl .write)
  | .write => (d, .inl .sync)
  | .sync => (d, .inl .close)
  | .close => (d, .inl .link)
  | .link =>
    match d.spool.events.insert? e with
    | some events => ({ d with spool := { d.spool with events := events } }, .inl .remove)
    | none => (d, .inl .compare)
  | .compare =>
    match d.spool.events.find? e.sequence with
    | some old => if old = e then (d.unstage e.sequence pid, .inr (.ok ())) else
        (d, .inr (.error .conflict))
    | none => (d, .inr (.error .conflict))
  | .remove => (d.unstage e.sequence pid, .inl .syncDir)
  | .syncDir => (d, .inr (.ok ()))

/-- The operation fails; only the removal of the stage is not looked at. -/
def appendFails : AppendOp → Next AppendOp
  | .remove => .inl .syncDir
  | .compare => .inr (.error .conflict)
  | _ => .inr (.error .io)

/-! ## AckThrough -/

/-- `link` has the files still to be archived and those that are, `unlink` those
still to be removed. -/
inductive AckOp where
  | readAck | removeStage | create | write | sync | close | rename | syncDir | openArchive | glob
  | link (todo archived : List Event)
  | syncArchive (archived : List Event)
  | unlink (todo : List Event)
  | syncSpool
  deriving DecidableEq, Repr

/-- The operation succeeds. -/
def Disk.ackThrough (d : Disk) (sequence : Int) : AckOp → Disk × Next AckOp
  | .readAck =>
    if sequence < d.spool.acked then (d, .inr (.error .staleAck)) else (d, .inl .removeStage)
  | .removeStage => ({ d with ackStage := false }, .inl .create)
  | .create =>
    if d.ackStage = true then (d, .inr (.error .io)) else ({ d with ackStage := true }, .inl .write)
  | .write => (d, .inl .sync)
  | .sync => (d, .inl .close)
  | .close => (d, .inl .rename)
  | .rename =>
    ({ d with spool := { d.spool with acked := sequence }, ackStage := false }, .inl .syncDir)
  | .syncDir => (d, .inl .openArchive)
  | .openArchive => (d, .inl .glob)
  | .glob => (d, .inl (.link (d.spool.archivable sequence) []))
  | .link [] archived => (d, .inl (.syncArchive archived))
  | .link (e :: todo) archived =>
    match d.spool.link e with
    | .ok spool => ({ d with spool := spool }, .inl (.link todo (archived ++ [e])))
    | .error _ => (d, .inr (.error .conflict))
  | .syncArchive archived => (d, .inl (.unlink archived))
  | .unlink [] => (d, .inl .syncSpool)
  | .unlink (e :: todo) => ({ d with spool := d.spool.unlink e }, .inl (.unlink todo))
  | .syncSpool => (d, .inr (.ok ()))

/-- The operation fails; only the removal of the stage is not looked at. -/
def ackFails : AckOp → Next AckOp
  | .removeStage => .inl .create
  | _ => .inr (.error .io)

/-! ## A process at its spool -/

inductive Job where
  | append (e : Event) (op : AppendOp)
  | ackThrough (sequence : Int) (op : AckOp)
  deriving DecidableEq, Repr

/-- `appended` are the events whose `Append` has returned success, `interrupted` those
whose `Append` a crash has cut off. -/
structure Process where
  disk : Disk
  pid : Nat
  job : Option Job := none
  returned : Option (Except FileError Unit) := none
  appended : List Event := []
  interrupted : List Event := []

inductive FileAction where
  | append (e : Event)
  | ackThrough (sequence : Int)
  /-- The next operation succeeds. -/
  | advance
  | fail
  /-- The process dies, and one of the given pid takes over. -/
  | crash (pid : Nat)
  deriving DecidableEq, Repr

namespace Process

def fresh (attemptId segmentId : String) (pid : Nat) : Process :=
  ⟨⟨{ attemptId := attemptId, segmentId := segmentId }, [], false⟩, pid, none, none, [], []⟩

/-- The event an `Append` is at work on. -/
def inFlight (m : Process) : Option Event :=
  match m.job with
  | some (.append e _) => some e
  | _ => none

def returns (m : Process) (result : Except FileError Unit) : Process :=
  { m with job := none, returned := some result }

/-- The operation of an `Append` leaves the disk and leads on. -/
def appendTo (m : Process) (e : Event) : Disk × Next AppendOp → Process
  | (d, .inl op) => { m with disk := d, job := some (.append e op) }
  | (d, .inr (.ok ())) => { { m with disk := d }.returns (.ok ()) with appended := e :: m.appended }
  | (d, .inr (.error err)) => { m with disk := d }.returns (.error err)

def ackTo (m : Process) (sequence : Int) : Disk × Next AckOp → Process
  | (d, .inl op) => { m with disk := d, job := some (.ackThrough sequence op) }
  | (d, .inr result) => { m with disk := d }.returns result

def step (m : Process) : FileAction → Process
  | .append e =>
    match m.job with
    | some _ => m
    | none =>
      if validEvent e then { m with job := some (.append e .readLive) }
      else m.returns (.error .invalidEvent)
  | .ackThrough sequence =>
    match m.job with
    | some _ => m
    | none =>
      if sequence < 0 then m.returns (.error .invalidAck)
      else { m with job := some (.ackThrough sequence .readAck) }
  | .advance =>
    match m.job with
    | none => m
    | some (.append e op) => m.appendTo e (m.disk.append m.pid e op)
    | some (.ackThrough sequence op) => m.ackTo sequence (m.disk.ackThrough sequence op)
  | .fail =>
    match m.job with
    | none => m
    | some (.append e op) => m.appendTo e (m.disk, appendFails op)
    | some (.ackThrough sequence op) => m.ackTo sequence (m.disk, ackFails op)
  | .crash pid =>
    if pid = m.pid then m
    else
      { m with
        pid := pid
        job := none
        returned := none
        interrupted := m.inFlight.toList ++ m.interrupted }

def run (m : Process) (actions : List FileAction) : Process := Library.run step m actions

end Process
end Orchestrator.Host.Files
