import Orchestrator.Library.Run
import Mathlib.Data.List.Basic

/-!
# The threads of a Host session

`RunSource` and what runs beside it: the reader of the connection with its queue of eight
frames, the publisher, and the workers. They meet in `publishMu`, in the mutex of the session,
which is held until the acknowledgement has come, in its channel, and in `runCtx`. The context
`RunSource` was called with is not cancelled.
-/
namespace Orchestrator.Host.Threads
open Library

inductive Party where
  | main | publisher
  | worker (i : Nat)
  deriving DecidableEq, Repr

/-- `SendEvent` and `registerReportCapability`, under the mutex of the session: the channel is
registered, the request is written, the acknowledgement awaited, the channel removed. -/
inductive Call where
  | opening | writing | awaiting
  | closing (ok : Bool)
  deriving DecidableEq, Repr

/-- `PublishAll`. -/
inductive Publish where
  /-- Waits for `publishMu`. -/
  | lock
  /-- The spools are read, or an event has been acknowledged. -/
  | next
  /-- Waits for the mutex of the session. -/
  | mutex
  | calling
  deriving DecidableEq, Repr

inductive Main where
  | reconcile (p : Publish)
  /-- `host_reconciled` is sent. -/
  | announce
  | serve
  /-- `StopAll` and the wait for the workers; both give up after two seconds. -/
  | teardown
  | flush (p : Publish)
  | cancelRun
  /-- Waits for `publisherDone`. -/
  | awaitPublisher
  | returned
  deriving DecidableEq, Repr

inductive Publisher where
  | unstarted | idle
  | publish (p : Publish)
  /-- The error goes to `publisherErrors`, which has room for it. -/
  | report
  | done
  deriving DecidableEq, Repr

inductive Worker where
  /-- The invocation provider. -/
  | provide
  | mutex | calling
  /-- `ExecuteLaunch`, and what is appended after it. -/
  | running
  /-- The error goes to `workerErrors`, which has room for two. -/
  | report
  | done
  deriving DecidableEq, Repr

/-- What the main loop finds in the queue; `failure` is the error of a read. -/
inductive Frame where
  | launch | stop | unsupported | failure
  deriving DecidableEq, Repr

inductive Reader where
  | reading
  | pushing (f : Frame)
  /-- Sends to an acknowledgement channel that is full, and holds `ackMu`. -/
  | offering
  | done
  deriving DecidableEq, Repr

/-- `publishing` is the holder of `publishMu`, `call` the holder of the session's mutex and how
far its request is; `answered` says that the channel of the request has a frame. -/
structure Session where
  main : Main := .reconcile .lock
  publisher : Publisher := .unstarted
  workers : List Worker := []
  reader : Reader := .reading
  frames : List Frame := []
  publishing : Option Party := none
  call : Option (Party × Call) := none
  answered : Bool := false
  cancelled : Bool := false
  signalled : Bool := false
  workerErrors : Nat := 0
  publisherErrors : Bool := false
  deriving DecidableEq, Repr

/-- How an operation ends: `giveUp` is the third way, where there is one. -/
inductive Choice where
  | succeed | fail | giveUp
  deriving DecidableEq, Repr

inductive Action where
  /-- A frame with the id of the request in flight arrives. -/
  | answer
  /-- Another frame arrives, or the read fails. -/
  | arrive (f : Frame)
  /-- The reader hands over what it has. -/
  | handOver
  | call (c : Choice)
  | main (c : Choice)
  /-- The main loop takes a frame; the handling of it may fail. -/
  | takeFrame (ok : Bool)
  | takeWorkerError
  | takePublisherError
  | publisher (c : Choice)
  | worker (i : Nat) (next : Worker)
  deriving DecidableEq, Repr

namespace Session
variable (s : Session)

/-- `PublishAll` returns to its caller. -/
def published (who : Party) (ok : Bool) : Session :=
  match who with
  | .main =>
    { s with
      publishing := none
      main := match s.main with
        | .reconcile _ => if ok then .announce else .returned
        | _ => .cancelRun }
  | .publisher => { s with publishing := none, publisher := if ok then .idle else .report }
  | .worker _ => s

/-- The caller of `PublishAll` goes on with it. -/
def setPublish (who : Party) (p : Publish) : Session :=
  match who with
  | .main =>
    { s with main := match s.main with
        | .reconcile _ => .reconcile p
        | _ => .flush p }
  | .publisher => { s with publisher := .publish p }
  | .worker _ => s

/-- The next operation of `PublishAll`; `next` finds another event, or an error, or nothing. -/
def publish (who : Party) (c : Choice) : Publish → Option Session
  | .lock =>
    if s.publishing = none then some ({ s with publishing := some who }.setPublish who .next)
    else none
  | .next =>
    match c with
    | .succeed => some (s.setPublish who .mutex)
    | .fail => some (s.published who false)
    | .giveUp => some (s.published who true)
  | .mutex =>
    if s.call = none then some ({ s with call := some (who, .opening) }.setPublish who .calling)
    else none
  | .calling => none

/-- The request is over, and the mutex of the session free. -/
def resume (who : Party) (ok : Bool) : Session :=
  let s := { s with call := none }
  match who with
  | .worker i => { s with workers := s.workers.set i (if ok then .running else .report) }
  | who => if ok then s.setPublish who .next else s.published who false

/-- The next operation of the request. `ackMu` is taken to register and to remove the channel. -/
def callStep (who : Party) (c : Choice) : Call → Option Session
  | .opening =>
    if c = .succeed then
      if s.reader = .offering then none
      else some { s with call := some (who, .writing), answered := false }
    else some (s.resume who false)
  | .writing =>
    some { s with call := some (who, if c = .succeed then .awaiting else .closing false) }
  | .awaiting =>
    if c = .giveUp then
      if s.cancelled = true then some { s with call := some (who, .closing false) } else none
    else if s.answered = true then
      some { s with call := some (who, .closing (c = .succeed)), answered := false }
    else none
  | .closing ok => if s.reader = .offering then none else some (s.resume who ok)

def mainStep (c : Choice) : Option Session :=
  match s.main with
  | .reconcile p | .flush p => s.publish .main c p
  | .announce =>
    if s.call = none then
      some (if c = .succeed then { s with main := .serve, publisher := .idle }
        else { s with main := .returned })
    else none
  -- the ticker: the owner is there, or lost
  | .serve => some (if c = .succeed then s else { s with main := .teardown })
  | .teardown => some { s with main := .flush .lock }
  | .cancelRun => some { s with cancelled := true, main := .awaitPublisher }
  | .awaitPublisher => if s.publisher = .done then some { s with main := .returned } else none
  | .returned => none

def takeFrame (ok : Bool) : Option Session :=
  match s.main, s.frames with
  | .serve, .launch :: rest =>
    some (if ok then { s with frames := rest, workers := s.workers ++ [Worker.provide] }
      else { s with frames := rest, main := .teardown })
  | .serve, .stop :: rest =>
    some { s with frames := rest, main := if ok then .serve else .teardown }
  | .serve, _ :: rest => some { s with frames := rest, main := .teardown }
  | _, _ => none

def publisherStep (c : Choice) : Option Session :=
  match s.publisher with
  | .unstarted | .done => none
  | .idle =>
    if c = .succeed then
      if s.signalled = true then some { s with signalled := false, publisher := .publish .lock }
      else none
    else if s.cancelled = true then some { s with publisher := .done }
    else none
  | .publish p => s.publish .publisher c p
  | .report => some { s with publisherErrors := true, publisher := .done }

def setWorker (i : Nat) (next : Worker) : Session := { s with workers := s.workers.set i next }

/-- A worker goes on to one of the operations that may follow. -/
def workerStep (i : Nat) (next : Worker) : Option Session :=
  match s.workers[i]? with
  | some .provide =>
    if next = .mutex ∨ next = .running ∨ next = .report ∨ next = .done then
      some (s.setWorker i next)
    else none
  | some .mutex =>
    if s.call = none then
      some ({ s with call := some (.worker i, .opening) }.setWorker i .calling)
    else none
  | some .running =>
    -- what it appends wakes the publisher
    if next = .running ∨ next = .report ∨ next = .done then
      some ({ s with signalled := true }.setWorker i next)
    else none
  | some .report =>
    if s.workerErrors < 2 then
      some ({ s with workerErrors := s.workerErrors + 1 }.setWorker i .done)
    else if s.cancelled = true then some (s.setWorker i .done)
    else none
  | _ => none

def handOver : Option Session :=
  match s.reader with
  | .pushing f =>
    if s.frames.length < 8 then
      some { s with
        frames := s.frames ++ [f], reader := if f = .failure then .done else .reading }
    else none
  | .offering =>
    if s.answered = true then none else some { s with answered := true, reader := .reading }
  | .reading | .done => none

/-- The channel of the request in flight is registered. -/
def registered : Bool :=
  match s.call with
  | some (_, .writing) | some (_, .awaiting) | some (_, .closing _) => true
  | _ => false

/-- What a thread can do, or nothing. -/
def step : Action → Option Session
  | .answer =>
    if s.reader = .reading ∧ s.registered = true then
      some (if s.answered = true then { s with reader := .offering }
        else { s with answered := true })
    else none
  | .arrive f => if s.reader = .reading then some { s with reader := .pushing f } else none
  | .handOver => s.handOver
  | .call c =>
    match s.call with
    | some (who, call) => s.callStep who c call
    | none => none
  | .main c => s.mainStep c
  | .takeFrame ok => s.takeFrame ok
  | .takeWorkerError =>
    if s.main = .serve ∧ 0 < s.workerErrors then
      some { s with main := .teardown, workerErrors := s.workerErrors - 1 }
    else none
  | .takePublisherError =>
    if s.main = .serve ∧ s.publisherErrors = true then
      some { s with main := .teardown, publisherErrors := false }
    else none
  | .publisher c => s.publisherStep c
  | .worker i next => s.workerStep i next

/-- An action that is not possible changes nothing. -/
def act (a : Action) : Session := (s.step a).getD s

def run (actions : List Action) : Session := Library.run act s actions

/-- Nothing can happen any more, whatever the coordinator sends, and `RunSource` has not
returned. -/
def Deadlock : Prop := s.main ≠ .returned ∧ ∀ a, s.step a = none

end Session
end Orchestrator.Host.Threads
