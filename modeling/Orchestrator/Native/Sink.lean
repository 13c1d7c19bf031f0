import Orchestrator.Native.Activation
import Mathlib.Logic.Function.Basic

/-!
# The sink of an activation

`MetadataSink` is told of the connections of an activation. It feeds them to one observer, keeps
what the records say of the protocol of each, and calls for a ready receipt once a connection is
proven to be its owner's.
-/
namespace Orchestrator.Native.Activation
open Library PythonJson

/-! ## The observer -/

structure Observer (κ : Type) where
  connections : κ → Option Connection := fun _ => none
  maxEpochSeen : Nat := 0
  rows : List Row := []

namespace Observer
variable {κ : Type} [DecidableEq κ] (cfg : Config) (o : Observer κ)

def put (id : κ) (t : Tap) : Observer κ :=
  { o with connections := Function.update o.connections id (some t.connection), rows := t.rows }

/-- A gap of no connection. -/
def unknownConnection (d : Option Direction) : Observer κ :=
  let reason := if o.rows.length ≥ cfg.maxEvents - 1 then "event_queue_overflow"
    else "unknown_connection"
  { o with rows := o.rows ++ [Row.gap reason none none d] }

/-- The records once the connection that had the id is closed. -/
def reopened (id : κ) : List Row :=
  match o.connections id with
  | none => o.rows
  | some old => if old.closed = true then o.rows else (Tap.reopen cfg ⟨old, o.rows, false⟩).rows

/-- `open`; `none` where it raises an error. -/
def openConnection (id : κ) (epoch : Nat) : Option (Observer κ) :=
  if epoch ≤ o.maxEpochSeen then none
  else
    let t := Tap.emit cfg ⟨{ epoch := epoch }, o.reopened cfg id, false⟩ none
      (.observed .connectionOpen)
    some { o.put id t with maxEpochSeen := epoch }

/-- `feed`, and whether it raises an error. -/
def feed (expectedHome : Nat → Option Text) (id : κ) (direction : Option Direction)
    (data : List UInt8) : Observer κ × Bool :=
  match o.connections id with
  | none => (o.unknownConnection cfg direction, false)
  | some c =>
    if c.closed = true then (o.unknownConnection cfg direction, false)
    else
      let t := match direction with
        | none => Tap.gap cfg ⟨c, o.rows, false⟩ none "unknown_direction"
        | some d => Tap.feed cfg (expectedHome c.epoch) ⟨c, o.rows, false⟩ d data
      (o.put id t, t.raised)

def close (id : κ) : Observer κ :=
  match o.connections id with
  | none => o.unknownConnection cfg none
  | some c => if c.closed = true then o else o.put id (Tap.close cfg ⟨c, o.rows, false⟩)

/-- `complete_boundary`. -/
def completeBoundary (id : κ) : Bool :=
  match o.connections id with
  | none => false
  | some c => c.valid && !c.closed && [c.client, c.server].all fun parser =>
    parser.handshakeDone && parser.buffer.isEmpty && parser.fragmentOpcode.isNone

end Observer

/-! ## The protocol of a connection -/

structure Lease where
  leaseId : Option Text := none
  profileId : Option Text := none
  expectedHome : Option Text := none
  expectedCwd : Option Text := none
  expectedResumeThreadId : Option Text := none
  deriving DecidableEq, Repr

/-- An id that is `some none` was recorded as `None`. -/
structure Initialize where
  requestId : Option (Option Id) := none
  homeMatch : Option Bool := none
  homeSha256 : Option Text := none
  deriving DecidableEq, Repr

structure Thread where
  id : Option Text := none
  startRequestId : Option (Option Id) := none
  startedId : Option Text := none
  resumeRequestId : Option (Option Id) := none
  resumeResponse : Bool := false
  skillsRequestId : Option (Option Id) := none
  resumeBarrier : Bool := false
  deriving DecidableEq, Repr

structure TurnCounts where
  start : Nat := 0
  steer : Nat := 0
  deriving DecidableEq, Repr

/-- What is kept of a record of a message. -/
structure Rpc where
  event : String
  direction : Option Direction
  method : Option Text
  requestId : Option Id
  requestDirection : Option Direction := none
  ok : Option Bool := none
  response : Bool := false
  deriving DecidableEq, Repr

structure Protocol (κ π : Type) where
  connectionId : κ
  epoch : Nat
  lease : Lease
  frontend : π
  backend : π
  protocolValid : Bool
  closed : Bool := false
  upgrades : List Direction := []
  initializeState : Initialize := {}
  initialized : Bool := false
  thread : Thread := {}
  turnCounts : TurnCounts := {}
  rpc : List Rpc := []
  readyPublished : Bool := false
  failureReason : Option String := none
  resumeSkillsPending : List (Option Id) := []
  deriving DecidableEq, Repr

def maxRpc : Nat := 4096

/-- `_thread_id`: the canonical form of a UUID. -/
def isThreadId (s : Text) : Bool :=
  s.length = 36 && s.zipIdx.all fun (c, i) =>
    if i ∈ [8, 13, 18, 23] then c = 0x2D
    else (0x30 ≤ c && c ≤ 0x39) || (0x61 ≤ c && c ≤ 0x66)

/-- A field that is a string. -/
def paramText (params : Params) (key : String) : Option Text :=
  match params.lookup key with
  | some (.str s) => some s
  | _ => none

namespace Protocol
variable {κ π : Type} (p : Protocol κ π)

def invalid : Protocol κ π := { p with protocolValid := false }

/-- The protocol is invalid where this holds. -/
def refuse (b : Prop) [Decidable b] : Protocol κ π := if b then p.invalid else p

def setThread (thread : Thread) : Protocol κ π := { p with thread := thread }

/-- A request of the client. -/
def clientRequest (requestId : Option Id) (method : Text) (params : Params) : Protocol κ π :=
  if method = text "initialize" then
    let p := p.refuse (p.initializeState.requestId ≠ none)
    { p with initializeState := { p.initializeState with requestId := some requestId } }
  else if method = text "initialized" then
    let p := p.refuse (p.initialized = true ∨ p.initializeState.homeMatch ≠ some true)
    { p with initialized := true }
  else if method = text "thread/resume" then
    let expected := p.lease.expectedResumeThreadId
    let p := p.refuse (p.initialized = false ∨ p.thread ≠ {} ∨ expected.any isThreadId = false ∨
      paramText params "threadId" ≠ expected)
    p.setThread { p.thread with resumeRequestId := some requestId }
  else if method = text "skills/list" ∧ p.thread.resumeResponse = true then
    { p with
      resumeSkillsPending := requestId :: p.resumeSkillsPending
      thread := { p.thread with skillsRequestId := some requestId } }
  else if method = text "thread/start" then
    let p := p.refuse (p.lease.expectedResumeThreadId ≠ none)
    let p := p.refuse (p.initialized = false ∨ p.thread.id ≠ none)
    let p := p.refuse (paramText params "cwd" ≠ p.lease.expectedCwd)
    p.setThread { p.thread with startRequestId := some requestId }
  else p

/-- `thread/started`, as the server tells it. -/
def started (identifier : Option Text) : Protocol κ π :=
  if identifier.any isThreadId = false ∨ p.thread.id ≠ identifier ∨ p.thread.startedId ≠ none then
    p.invalid
  else p.setThread { p.thread with startedId := identifier }

def response (d : Option Direction) (id : Id) (requestDirection : Direction) (method : Text)
    (ok : Bool) (thread : Option Params) : Protocol κ π :=
  let identifier := thread.bind (paramText · "id")
  let cwd := thread.bind (paramText · "cwd")
  let toClient := d = some .server ∧ requestDirection = .client
  if method = text "thread/resume" then
    let expected := p.lease.expectedResumeThreadId
    if ok = false ∨ ¬ toClient ∨ p.thread.resumeRequestId ≠ some (some id) ∨
        p.thread.resumeResponse = true ∨ expected.any isThreadId = false ∨
        identifier ≠ expected ∨ cwd ≠ p.lease.expectedCwd then p.invalid
    else p.setThread { p.thread with id := expected, resumeResponse := true }
  else if method = text "skills/list" ∧ p.thread.resumeResponse = true then
    if some id ∈ p.resumeSkillsPending then
      let p := { p with resumeSkillsPending := p.resumeSkillsPending.filter (· ≠ some id) }
      if ok = true ∧ toClient then p.setThread { p.thread with resumeBarrier := true }
      else p.invalid
    else p
  else if method = text "thread/start" ∧ ok = true then
    if ¬ toClient ∨ p.thread.startRequestId ≠ some (some id) ∨ identifier.any isThreadId = false ∨
        cwd ≠ p.lease.expectedCwd ∨ p.thread.id ≠ none then p.invalid
    else p.setThread { p.thread with id := identifier }
  else p

/-- A request counts where it starts or steers a turn. -/
def countTurn (method : Text) : Protocol κ π :=
  let counts := p.turnCounts
  if method = text "turn/start" then
    { p with turnCounts := { counts with start := counts.start + 1 } }
  else if method = text "turn/steer" then
    { p with turnCounts := { counts with steer := counts.steer + 1 } }
  else p

/-- A record of a message, where there is room for it. -/
def addRpc (row : Rpc) : Protocol κ π := { p with rpc := p.rpc ++ [row] }

/-- `_protocol_event`. -/
def protocolEvent (row : Row) : Protocol κ π :=
  let d := row.direction
  match row.entry with
  | .initializeHome id homeMatch homeSha256 =>
    let p := { p with initializeState := ⟨some (some id), some homeMatch, homeSha256⟩ }
    p.refuse (homeMatch = false)
  | .observed (.gap reason _) => { p.invalid with failureReason := some reason }
  | .observed .connectionClose => { p with closed := true }
  | .observed .websocketUpgrade =>
    { p with upgrades := d.toList.filter (· ∉ p.upgrades) ++ p.upgrades }
  | .observed .connectionOpen | .observed (.wsControl _) => p
  | .observed (.rpc requestId method params thread) =>
    if p.rpc.length ≥ maxRpc then p.invalid
    else
      let p := (p.addRpc ⟨"rpc", d, some method, requestId, none, none, false⟩).countTurn method
      if d = some .client then p.clientRequest requestId method params
      else if method = text "thread/started" then p.started (thread.bind (paramText · "id"))
      else p
  | .observed (.rpcUnknown requestId method _ response) =>
    if p.rpc.length ≥ maxRpc then p.invalid
    else
      let p := p.addRpc ⟨"rpc_unknown", d, method, requestId, none, none, response⟩
      if response = true then p.refuse (method = none)
      else match method with
      | some method => p.countTurn method
      | none => p
  | .observed (.rpcResponse id requestDirection method ok thread) =>
    if p.rpc.length ≥ maxRpc then p.invalid
    else (p.addRpc ⟨"rpc_response", d, some method, some id, some requestDirection, some ok,
      false⟩).response d id requestDirection method ok thread

/-- `_ready`. -/
def ready : Bool :=
  p.protocolValid && !p.closed && !p.readyPublished &&
    [Direction.client, .server].all (· ∈ p.upgrades) && p.initialized &&
    decide (p.initializeState.homeMatch = some true) && p.thread.id.isSome &&
    (decide (p.thread.id = p.thread.startedId) || p.thread.resumeBarrier) &&
    decide (p.turnCounts = {})

end Protocol

/-! ## The sink -/

/-- A call for a ready receipt, and whether it returned. -/
structure Publication (κ π : Type) where
  protocol : Protocol κ π
  succeeded : Bool
  deriving DecidableEq, Repr

structure Sink (κ π : Type) where
  observer : Observer κ := {}
  protocol : Nat → Option (Protocol κ π) := fun _ => none
  published : List (Publication κ π) := []

/-- A call of the proxy: a connection, with the lease that it is found to have; data, with what
`publish_ready` will do if it is called; the end of a direction, or of the connection; a gap. -/
inductive Callback (κ π : Type) where
  | connect (id : κ) (epoch : Nat) (lease : Option Lease) (frontend backend : π)
  | data (id : κ) (epoch : Nat) (direction : Option Direction) (bytes : List UInt8)
    (publishes : Bool)
  | lifecycle (id : κ) (epoch : Nat) (ends : Bool)
  | gap (epoch : Nat)

namespace Sink
variable {κ π : Type} [DecidableEq κ] (cfg : Config) (s : Sink κ π)

/-- What the records of an observer say of the connections. -/
def tell (rows : List Row) (protocol : Nat → Option (Protocol κ π)) :
    Nat → Option (Protocol κ π) :=
  rows.foldl (fun protocol row => match row.connEpoch with
    | none => protocol
    | some epoch =>
      Function.update protocol epoch ((protocol epoch).map (·.protocolEvent row))) protocol

/-- The sink after a call of the observer, which tells it of each record at once. -/
def observe (o : Observer κ) : Sink κ π :=
  { s with
    observer := o
    protocol := tell (o.rows.drop s.observer.rows.length) s.protocol }

/-- `_expected_home`. -/
def expectedHome (epoch : Nat) : Option Text := (s.protocol epoch).bind (·.lease.expectedHome)

def onConnect (id : κ) (epoch : Nat) (lease : Option Lease) (frontend backend : π) : Sink κ π :=
  let p : Protocol κ π :=
    { connectionId := id
      epoch := epoch
      lease := lease.getD {}
      frontend := frontend
      backend := backend
      protocolValid := lease.isSome }
  let s := { s with protocol := Function.update s.protocol epoch (some p) }
  match s.observer.openConnection cfg id epoch with
  | none => s
  | some o => s.observe o

def onData (id : κ) (epoch : Nat) (direction : Option Direction) (bytes : List UInt8)
    (publishes : Bool) : Sink κ π :=
  match s.protocol epoch with
  | none => s
  | some p =>
    if p.connectionId ≠ id then s
    else
      let (o, raised) := s.observer.feed cfg s.expectedHome id direction bytes
      let s := s.observe o
      match s.protocol epoch with
      | none => s
      | some p =>
        -- only after the whole of the chunk was parsed
        if raised = false ∧ p.ready = true ∧ o.completeBoundary id = true then
          { s with
            protocol := Function.update s.protocol epoch
              (some { p with readyPublished := p.readyPublished || publishes })
            published := s.published ++ [⟨p, publishes⟩] }
        else s

def onLifecycle (id : κ) (ends : Bool) : Sink κ π :=
  if ends = true then s.observe (s.observer.close cfg id) else s

def onGap (epoch : Nat) : Sink κ π :=
  { s with protocol := Function.update s.protocol epoch ((s.protocol epoch).map (·.invalid)) }

def step : Callback κ π → Sink κ π
  | .connect id epoch lease frontend backend => s.onConnect cfg id epoch lease frontend backend
  | .data id epoch direction bytes publishes => s.onData cfg id epoch direction bytes publishes
  | .lifecycle id _ ends => s.onLifecycle cfg id ends
  | .gap epoch => s.onGap epoch

end Sink
end Orchestrator.Native.Activation
