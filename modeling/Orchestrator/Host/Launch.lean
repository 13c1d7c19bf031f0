import Orchestrator.Contract
import Orchestrator.Library.Run

/-!
# Launching a worker

The goroutine of an accepted grant, one operation after another, with every way each
of them may fail: it obtains the invocation, `ExecuteLaunch` checks the grant,
`execute` starts the process, waits for it and records what became of it, and what
`ExecuteLaunch` returns decides what is recorded afterwards. Meanwhile the process runs
and ends, its output may name a session, and `StopSegment` is called, in any order.
-/
namespace Orchestrator.Host.Worker
open Library

/-- The process group of the worker. -/
inductive Tree where
  | unborn
  /-- The leader runs. -/
  | alive
  /-- The leader has exited. -/
  | exited
  /-- No member is left. -/
  | gone
  deriving DecidableEq, Repr

/-- The `Status` of the result `ExecuteLaunch` returns; `finished` comes without an error. -/
inductive Status where
  | empty | failed | unknown | interrupted | finished
  deriving DecidableEq, Repr

/-- What `ExecuteLaunch` and `execute` look at before anything is written. -/
inductive Check where
  | grant | session | profile | deadline | reservation | sandbox | spool | collector
  deriving DecidableEq, Repr

/-- What `process.Start` looks at before it starts the command: the path is given, the context
is not done, the platform is supported, the path is absolute and no link, the executable can be
read, the pinned one has its digest. -/
inductive StartCheck where
  | path | context | platform | resolved | digest | pin
  deriving DecidableEq, Repr

/-- `publishLaunchPhase` replaces `launch.json`, `appendPhase` appends an event. -/
inductive Write where
  | publish
  | append (kind : EventKind)
  deriving DecidableEq, Repr

/-- The writes that belong together: they fail together, the same way. -/
inductive Block where
  /-- The process has been started. -/
  | spawned
  /-- `finalizeStopped`. -/
  | stopped
  /-- The end of a worker that was not stopped. -/
  | terminal
  /-- `execute` cannot tell what has become of the process; its writes may fail. -/
  | lost
  /-- `recordLaunchFailed`. -/
  | failed
  /-- `recordLaunchUnknown`. -/
  | unknown
  deriving DecidableEq, Repr

/-- The events of a block in their order. -/
def Block.writes : Block → List Write
  | .spawned => [.publish, .append .spawned, .publish, .append .running]
  | .stopped => [.publish, .append .stopped, .publish, .append .exited]
  | .terminal => [.publish, .append .exited]
  | .lost | .unknown => [.publish, .append .unknown]
  | .failed => [.publish, .append .failed, .publish, .append .exited]

/-- The operation that comes next. -/
inductive Pc where
  | invocation | reportCapability
  | check (todo : List Check)
  | publishPrepared | appendPrepared
  | firstStopTest
  | start (todo : List StartCheck)
  | spawn
  /-- The command has been started, its birth is read. -/
  | birth
  | write (block : Block) (todo : List Write)
  | observe | register
  | secondStopTest
  | wait | stopAfterWait | confirm
  | lastStopTest
  | finish
  | writeArtifact (kind : EventKind)
  | deregister (status : Status)
  | clearStop (status : Status)
  | ensureUnknown
  | done
  deriving DecidableEq, Repr

/-- `stopRequested` and `registered` are the segment's entries in the tables of the
Host; `waited` says that `cmd.Wait` has returned, `killed` that the exit code is negative;
`stopInvoked` that `Stop` has been called on the handle. `stoppers` are the calls of
`StopSegment` that have set the flag and not looked for the handle. -/
structure Launch where
  pc : Pc := .invocation
  spool : List EventKind := []
  tree : Tree := .unborn
  waited : Bool := false
  killed : Bool := false
  observing : Bool := false
  stopRequested : Bool := false
  registered : Bool := false
  stopInvoked : Bool := false
  stoppers : Nat := 0
  deriving DecidableEq, Repr

inductive Action where
  /-- The next operation of the goroutine succeeds or fails. -/
  | go (ok : Bool)
  /-- The exit code, and what a structured provider's output ends with. -/
  | finish (kind : EventKind)
  /-- The leader of the process group exits. -/
  | exit (killed : Bool)
  /-- The last member of the group does. -/
  | vanish
  /-- The leader has been reaped and the output read to its end. -/
  | reap
  /-- The output names a session. -/
  | session
  /-- `StopSegment` sets the flag. -/
  | stopSegment
  /-- `StopSegment` looks for the handle, and stops the process it finds. -/
  | lookUp
  deriving DecidableEq, Repr

/-- The actions of the goroutine itself. -/
def Action.own : Action → Bool
  | .go _ | .finish _ => true
  | _ => false

namespace Launch
variable (s : Launch)

def goto (pc : Pc) : Launch := { s with pc := pc }

def append (kind : EventKind) : Launch := { s with spool := s.spool ++ [kind] }

def begin (block : Block) : Launch := s.goto (.write block block.writes)

/-- The switch over the status of what `ExecuteLaunch` has returned. -/
def back : Status → Launch
  | .finished | .interrupted => s.goto .done
  | .unknown => s.goto .ensureUnknown
  | .empty | .failed => s.begin .failed

/-- `execute` returns, and undoes its entries in the tables. -/
def returns (status : Status) : Launch :=
  if s.registered = true then s.goto (.deregister status) else s.back status

/-- The `Stop` that follows a failed write. -/
def stopAndReturn : Launch := { s with stopInvoked := true }.returns .unknown

def succeeds : Block → Launch
  | .spawned => s.goto .observe
  | .stopped => s.returns .interrupted
  | .terminal => s.returns .finished
  | .lost => s.returns .unknown
  | .failed | .unknown => s.goto .done

def fails : Block → List Write → Launch
  | .spawned, _ => s.stopAndReturn
  | .stopped, _ | .terminal, _ => s.returns .unknown
  | .lost, todo => s.goto (.write .lost todo)
  | .failed, _ | .unknown, _ => s.goto .done

def checks : List Check :=
  [.grant, .session, .profile, .deadline, .reservation, .sandbox, .spool, .collector]

def startChecks : List StartCheck := [.path, .context, .platform, .resolved, .digest, .pin]

/-- The next operation; a test of the stop flag does not fail, and `Stop` and
`ConfirmTreeExited` do not succeed while a member of the group is left. -/
def go (ok : Bool) : Launch :=
  match s.pc with
  | .invocation => if ok then s.goto .reportCapability else s.begin .failed
  | .reportCapability => if ok then s.goto (.check checks) else s.goto .done
  | .check [] => s.goto .publishPrepared
  | .check (_ :: todo) => if ok then s.goto (.check todo) else s.back .empty
  | .publishPrepared => if ok then s.goto .appendPrepared else s.back .failed
  | .appendPrepared => if ok then (s.append .prepared).goto .firstStopTest else s.back .unknown
  | .firstStopTest =>
    if s.stopRequested = true then s.begin .stopped else s.goto (.start startChecks)
  | .start [] => s.goto .spawn
  | .start (_ :: todo) => if ok then s.goto (.start todo) else s.begin .lost
  | .spawn => if ok then { s with tree := .alive }.goto .birth else s.begin .lost
  -- a process whose birth is not known is stopped, whatever comes of that
  | .birth => if ok then s.begin .spawned else { s with stopInvoked := true }.begin .lost
  | .write block [] => s.succeeds block
  | .write block (write :: todo) =>
    if ok then
      match write with
      | .publish => s.goto (.write block todo)
      | .append kind => (s.append kind).goto (.write block todo)
    else s.fails block todo
  | .observe => if ok then { s with observing := true }.goto .register else s.stopAndReturn
  | .register => { s with registered := true }.goto .secondStopTest
  | .secondStopTest =>
    (if s.stopRequested = true then { s with stopInvoked := true } else s).goto .wait
  | .wait =>
    -- the context may be done before the process has ended
    if ok then (if s.waited = true then s.goto .confirm else s)
    else { s with stopInvoked := true }.goto .stopAfterWait
  | .stopAfterWait =>
    if ok then (if s.tree = .gone then s.begin .stopped else s) else s.begin .lost
  | .confirm => if ok then (if s.tree = .gone then s.goto .lastStopTest else s) else s.begin .lost
  | .lastStopTest =>
    if s.stopRequested = true ∨ s.killed = true then s.begin .stopped else s.goto .finish
  | .finish => s
  | .writeArtifact kind =>
    if ok then s.goto (.write .terminal [.append kind, .publish, .append .exited])
    else s.returns .unknown
  | .deregister status => { s with registered := false }.goto (.clearStop status)
  | .clearStop status => { s with stopRequested := false }.back status
  | .ensureUnknown =>
    if ok then (if .unknown ∈ s.spool then s.goto .done else s.begin .unknown) else s.goto .done
  | .done => s

def step : Action → Launch
  | .go ok => s.go ok
  | .finish kind =>
    if s.pc = .finish ∧ (kind = .result ∨ kind = .question ∨ kind = .failed) then
      s.goto (.writeArtifact kind)
    else s
  | .exit killed => if s.tree = .alive then { s with tree := .exited, killed := killed } else s
  | .vanish => if s.tree = .exited then { s with tree := .gone } else s
  | .reap => if s.tree = .exited ∨ s.tree = .gone then { s with waited := true } else s
  | .session =>
    if s.observing = true ∧ s.waited = false then s.append .session else s
  | .stopSegment => { s with stopRequested := true, stoppers := s.stoppers + 1 }
  | .lookUp =>
    if 0 < s.stoppers then
      { s with stoppers := s.stoppers - 1, stopInvoked := s.stopInvoked || s.registered }
    else s

def run (actions : List Action) : Launch := Library.run step s actions

/-! What the goroutine does between its operations moves it, and nothing else. -/

section
variable {s}

theorem begin_eq {block : Block} : ∃ pc, s.begin block = s.goto pc := ⟨_, rfl⟩

theorem back_eq {status : Status} : ∃ pc, s.back status = s.goto pc := by
  cases status
  case finished | interrupted | unknown => exact ⟨_, rfl⟩
  all_goals exact begin_eq

theorem returns_eq {status : Status} : ∃ pc, s.returns status = s.goto pc := by
  unfold returns
  split
  · exact ⟨_, rfl⟩
  · exact back_eq

theorem succeeds_eq {block : Block} : ∃ pc, s.succeeds block = s.goto pc := by
  cases block
  case stopped | terminal | lost => exact returns_eq
  all_goals exact ⟨_, rfl⟩

@[simp] theorem goto_tree {pc : Pc} : (s.goto pc).tree = s.tree := rfl

@[simp] theorem begin_tree {block : Block} : (s.begin block).tree = s.tree := rfl

@[simp] theorem append_tree {kind : EventKind} : (s.append kind).tree = s.tree := rfl

@[simp] theorem back_tree {status : Status} : (s.back status).tree = s.tree := by
  obtain ⟨pc, h⟩ : ∃ pc, s.back status = s.goto pc := back_eq
  rw [h, goto_tree]

@[simp] theorem returns_tree {status : Status} : (s.returns status).tree = s.tree := by
  obtain ⟨pc, h⟩ : ∃ pc, s.returns status = s.goto pc := returns_eq
  rw [h, goto_tree]

@[simp] theorem stopAndReturn_tree : s.stopAndReturn.tree = s.tree := returns_tree

@[simp] theorem succeeds_tree {block : Block} : (s.succeeds block).tree = s.tree := by
  obtain ⟨pc, h⟩ : ∃ pc, s.succeeds block = s.goto pc := succeeds_eq
  rw [h, goto_tree]

@[simp] theorem fails_tree {block : Block} {todo : List Write} :
    (s.fails block todo).tree = s.tree := by
  cases block <;> simp [fails]

/-- Only the start of the command gives birth. -/
theorem go_tree {ok : Bool} (h : s.pc ≠ .spawn) : (s.go ok).tree = s.tree := by
  unfold go
  cases hpc : s.pc with
  | spawn => exact (h hpc).elim
  | check todo | start todo => cases todo <;> cases ok <;> simp
  | write block todo =>
    cases todo with
    | nil => simp
    | cons write todo => cases ok <;> cases write <;> simp
  | _ =>
    dsimp only
    repeat' split
    all_goals simp

@[simp] theorem goto_spool {pc : Pc} : (s.goto pc).spool = s.spool := rfl

@[simp] theorem begin_spool {block : Block} : (s.begin block).spool = s.spool := rfl

@[simp] theorem append_spool {kind : EventKind} : (s.append kind).spool = s.spool ++ [kind] := rfl

@[simp] theorem back_spool {status : Status} : (s.back status).spool = s.spool := by
  obtain ⟨pc, h⟩ : ∃ pc, s.back status = s.goto pc := back_eq
  rw [h, goto_spool]

@[simp] theorem returns_spool {status : Status} : (s.returns status).spool = s.spool := by
  obtain ⟨pc, h⟩ : ∃ pc, s.returns status = s.goto pc := returns_eq
  rw [h, goto_spool]

@[simp] theorem stopAndReturn_spool : s.stopAndReturn.spool = s.spool := returns_spool

@[simp] theorem succeeds_spool {block : Block} : (s.succeeds block).spool = s.spool := by
  obtain ⟨pc, h⟩ : ∃ pc, s.succeeds block = s.goto pc := succeeds_eq
  rw [h, goto_spool]

@[simp] theorem fails_spool {block : Block} {todo : List Write} :
    (s.fails block todo).spool = s.spool := by
  cases block <;> simp [fails]

/-- An operation of the goroutine appends one event at most. -/
theorem go_spool {ok : Bool} : (s.go ok).spool = s.spool ∨
    ∃ kind, (s.go ok).spool = s.spool ++ [kind] ∧
      (s.pc = .appendPrepared ∧ kind = .prepared ∨
        ∃ block todo, s.pc = .write block (.append kind :: todo)) := by
  unfold go
  cases hpc : s.pc with
  | appendPrepared =>
    cases ok with
    | true => exact .inr ⟨.prepared, rfl, .inl ⟨rfl, rfl⟩⟩
    | false => simp
  | write block todo =>
    cases todo with
    | nil => simp
    | cons write todo =>
      cases ok with
      | true =>
        cases write with
        | publish => exact .inl rfl
        | append kind => exact .inr ⟨kind, rfl, .inr ⟨block, todo, rfl⟩⟩
      | false => simp
  | check todo | start todo =>
    left
    cases todo <;> cases ok <;> simp
  | _ =>
    left
    dsimp only
    repeat' split
    all_goals simp

end

end Launch
end Orchestrator.Host.Worker
