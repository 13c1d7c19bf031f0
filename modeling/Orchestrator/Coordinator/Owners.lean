import Orchestrator.Events.Log
import Orchestrator.Events.Rounds
import Orchestrator.Fleet.Rebinds

/-!
# Who may own a run

No worker is to become an owner. `authorizePeer` compares the ancestors of whoever connects with
the processes of Hosts and workers that are known, and `validateOwnerRegistration` defers what a
new owner asks for while the process of an active segment is not. They are two calls of the store.
-/
namespace Orchestrator.Store
open Library

/-- The pid and the birth of a process. -/
abbrev Identity := Int × String

/-- What `process.Ancestry` tells of a process; a pid that is not among its ancestors has the
birth `""`. -/
abbrev Ancestry := Int → String

inductive OwnerError where
  | workerDispatchForbidden | registrationDeferred | registrationInvalid | capabilityMismatch
  | peerMismatch | conflict
  deriving DecidableEq, Repr

/-- `$.process` of the body of an event. -/
def RuntimeEvent.identity (e : RuntimeEvent) : Option Identity :=
  e.body.process.map fun p => (p.pid, p.birth)

/-- The rows that `IsWorkerAncestry` asks for. -/
def State.workerIdentities (s : State) : List Identity :=
  s.hosts.rows.map (fun h => (h.pid, h.birth)) ++
    s.runtimeEvents.rows.filterMap RuntimeEvent.identity

def State.isWorkerAncestry (s : State) (ancestors : Ancestry) : Bool :=
  s.workerIdentities.any fun w => ancestors w.1 = w.2

/-- An event that names the process of its segment. -/
def RuntimeEvent.names (e : RuntimeEvent) (segmentId : String) : Bool :=
  e.segmentId = segmentId && e.identity.any fun w => 1 < w.1 && w.2 ≠ ""

def State.identified (s : State) (segmentId : String) : Bool :=
  s.runtimeEvents.rows.any fun e => e.names segmentId

def State.validateOwnerRegistration (s : State) : Except OwnerError Unit :=
  require (¬ ∃ g ∈ s.segments.rows, g.active = true ∧ s.identified g.id = false)
    .registrationDeferred

/-! ## Grants -/

/-- A row of `owner_grants`. -/
structure GrantRow where
  id : String
  tokenHash : String
  controllerThread : String
  originPid : Int
  originBirth : String
  deriving DecidableEq, Repr

/-- A grant as its file holds it. -/
structure LocalOwnerGrant extends OwnerGrant where
  version : Int
  kind : String
  token : String
  originContextId : String
  deriving DecidableEq, Repr

/-- `CreateOwnerGrant`; `id` and `token` are the ids that it makes. -/
def createOwnerGrant (d : DB) (s : State) (grants : Table GrantRow.id)
    (id token controller : String) (origin : Identity) :
    Except OwnerError (Table GrantRow.id × LocalOwnerGrant) := do
  require (controller ≠ "" ∧ controller.utf8ByteSize ≤ 256 ∧ 1 < origin.1 ∧ origin.2 ≠ "")
    .registrationInvalid
  s.validateOwnerRegistration
  let grants ← expect (grants.insert? {
    id := id
    tokenHash := d.runtimeHash token
    controllerThread := controller
    originPid := origin.1
    originBirth := origin.2 }) .conflict
  .ok (grants, {
    version := 1
    kind := "local-owner"
    id := id
    token := token
    controllerThread := controller
    originPid := origin.1
    originBirth := origin.2
    originContextId := id
    hostGeneration := id })

def validateOwnerGrant (d : DB) (grants : Table GrantRow.id) (g : LocalOwnerGrant) :
    Except OwnerError Unit := do
  let row ← expect (grants.find? g.id) .capabilityMismatch
  require (g.version = 1 ∧ g.kind = "local-owner" ∧ g.originContextId = g.id ∧
    g.hostGeneration = g.id ∧ g.controllerThread = row.controllerThread ∧
    g.originPid = row.originPid ∧ g.originBirth = row.originBirth ∧
    row.tokenHash = d.runtimeHash g.token) .capabilityMismatch

/-- The processes that `ValidateDispatchPeer` takes for owners. -/
def origins (s : State) (grants : Table GrantRow.id) : List Identity :=
  s.runs.rows.map (fun r => (r.originPid, r.originBirth)) ++
    grants.rows.map fun g => (g.originPid, g.originBirth)

def validateDispatchPeer (s : State) (grants : Table GrantRow.id) (ancestors : Ancestry) :
    Except OwnerError Unit :=
  match s.validateOwnerRegistration with
  | .error .registrationDeferred =>
    require (∃ o ∈ origins s grants, o.2 ≠ "" ∧ ancestors o.1 = o.2) .registrationDeferred
  | other => other

end Orchestrator.Store

namespace Orchestrator.Coordinator
open Library Store

/-! ## Requests -/

/-- What a request is, as far as its checks tell requests apart. -/
inductive RequestKind where
  | ownerBind (controller : String) (origin : Identity)
  /-- A submit in the native mode. -/
  | submit
  /-- A submit in the local mode, once the file of the capability has been read. -/
  | localSubmit (g : LocalOwnerGrant)
  /-- Rebind, resume, retry, accept and answer. -/
  | dispatch
  deriving DecidableEq, Repr

/-- The requests of somebody who need not be an owner yet. -/
def RequestKind.registers : RequestKind → Bool
  | .ownerBind _ _ | .submit => true
  | .localSubmit _ | .dispatch => false

inductive RequestStage where
  | arrived
  /-- `IsWorkerAncestry` has said no, of these identities. -/
  | authorized (seen : List Identity)
  | admitted
  | refused
  deriving DecidableEq, Repr

structure Request where
  ancestors : Ancestry
  kind : RequestKind
  stage : RequestStage := .arrived

/-- The checks behind `authorizePeer`, up to the request itself. -/
def Request.check (req : Request) (d : DB) (s : State) (grants : Table GrantRow.id)
    (id token : String) : Except OwnerError (Table GrantRow.id) :=
  match req.kind with
  | .ownerBind controller origin => do
    require (origin.2 ≠ "" ∧ req.ancestors origin.1 = origin.2) .peerMismatch
    let (grants, _) ← createOwnerGrant d s grants id token controller origin
    .ok grants
  | .submit => do
    s.validateOwnerRegistration
    .ok grants
  | .localSubmit g => do
    validateOwnerGrant d grants g
    require (req.ancestors g.originPid = g.originBirth) .peerMismatch
    .ok grants
  | .dispatch => do
    validateDispatchPeer s grants req.ancestors
    .ok grants

/-- The store, the grants and the requests; `workers` are the processes of the segments that have
been started. -/
structure Owners where
  store : State
  grants : Table GrantRow.id := .empty GrantRow.id
  requests : Nat → Option Request := fun _ => none
  workers : String → Option Identity := fun _ => none

namespace Owners

inductive Action where
  | arrive (c : Nat) (ancestors : Ancestry) (kind : RequestKind)
  | authorizePeer (c : Nat)
  | check (c : Nat) (id token : String)
  /-- A Host starts the process of a segment. -/
  | spawn (segmentId : String) (w : Identity)
  /-- An operation of the store. -/
  | request (op : Op)

variable (d : DB)

def put (s : Owners) (c : Nat) (req : Request) : Owners :=
  { s with requests := Function.update s.requests c (some req) }

def step (s : Owners) : Action → Owners
  | .arrive c ancestors kind =>
    if (s.requests c).isNone then s.put c { ancestors := ancestors, kind := kind } else s
  | .authorizePeer c => match s.requests c with
    | some ⟨ancestors, kind, .arrived⟩ =>
      if s.store.isWorkerAncestry ancestors = true then s.put c ⟨ancestors, kind, .refused⟩
      else s.put c ⟨ancestors, kind, .authorized s.store.workerIdentities⟩
    | _ => s
  | .check c id token => match s.requests c with
    | some ⟨ancestors, kind, .authorized seen⟩ =>
      match Request.check ⟨ancestors, kind, .authorized seen⟩ d s.store s.grants id token with
      | .ok grants => { s.put c ⟨ancestors, kind, .admitted⟩ with grants := grants }
      | .error _ => s.put c ⟨ancestors, kind, .refused⟩
    | _ => s
  | .spawn segmentId w =>
    if s.workers segmentId = none then
      { s with workers := Function.update s.workers segmentId (some w) }
    else s
  | .request op => { s with store := d.step s.store op }

def run (s : Owners) (actions : List Action) : Owners := Library.run (step d) s actions

/-! ## Workers -/

/-- An event that is committed names no other process than the one that has been started for its
segment. -/
def Truthful (s : Owners) : Action → Prop
  | .request op => ∀ e ∈ op.event, ∀ p ∈ e.process, 1 < p.pid → p.birth ≠ "" →
    s.workers e.segmentId = some (p.pid, p.birth)
  | _ => True

instance (s : Owners) : (a : Action) → Decidable (s.Truthful a)
  | .request op => inferInstanceAs (Decidable (∀ e ∈ op.event, ∀ p ∈ e.process, 1 < p.pid →
      p.birth ≠ "" → s.workers e.segmentId = some (p.pid, p.birth)))
  | .arrive .. | .authorizePeer _ | .check .. | .spawn .. => isTrue trivial

/-- A descendant of the worker of an active segment that is admitted was authorized before the
store knew the worker, which it knows now; or it descends from an owner too. -/
def Windowed (s : Owners) : Action → Prop
  | .check c id token => ∀ ancestors kind seen,
    s.requests c = some ⟨ancestors, kind, .authorized seen⟩ →
    (Request.check ⟨ancestors, kind, .authorized seen⟩ d s.store s.grants id token).isOk = true →
    ∀ g ∈ s.store.segments, g.active = true → ∀ w, s.workers g.id = some w →
      ancestors w.1 = w.2 →
      (w ∉ seen ∧ w ∈ s.store.workerIdentities) ∨ (kind.registers = false ∧
        ∃ o ∈ origins s.store s.grants, ancestors o.1 = o.2)
  | _ => True

/-- The log names the workers, and an authorized request has none of the identities it has been
compared with among its ancestors. -/
structure Sound (s : Owners) : Prop where
  log : ∀ e ∈ s.store.runtimeEvents, ∀ segmentId, e.names segmentId = true →
    e.identity = s.workers segmentId
  seen : ∀ c ancestors kind seen, s.requests c = some ⟨ancestors, kind, .authorized seen⟩ →
    ∀ w ∈ seen, ancestors w.1 ≠ w.2

/-- An active segment whose process is not known. -/
def Unknown (segmentId : String) (s : State) : Prop :=
  ∃ g ∈ s.segments, g.id = segmentId ∧ g.active = true ∧ s.identified segmentId = false

/-- The step commits no event of the segment. -/
def Silent (segmentId : String) : Action → Prop
  | .request op => ∀ e ∈ op.event, e.segmentId ≠ segmentId
  | _ => True

instance (segmentId : String) : (a : Action) → Decidable (Silent segmentId a)
  | .request op => inferInstanceAs (Decidable (∀ e ∈ op.event, e.segmentId ≠ segmentId))
  | .arrive .. | .authorizePeer _ | .check .. | .spawn .. => isTrue trivial

/-- Nobody registers. -/
def Defers (s : Owners) : Action → Prop
  | .check c id token => ∀ req, s.requests c = some req → req.kind.registers = true →
    (req.check d s.store s.grants id token).isOk = false
  | _ => True

section Log
variable {d : DB} {s : State} {op : Op} {q r : RuntimeEvent} {w : Identity} {segmentId : String}

theorem names_iff : r.names segmentId = true ↔
    r.segmentId = segmentId ∧ ∃ p, r.body.process = some p ∧ 1 < p.pid ∧ p.birth ≠ "" := by
  cases hp : r.body.process <;> simp [RuntimeEvent.names, RuntimeEvent.identity, hp]

/-- What an event names stays whatever becomes of its delivery. -/
theorem identity_entry (h : q.entry = r.entry) : q.identity = r.identity := by
  have hbody : q.body = r.body := (congrArg RuntimeEvent.body h :)
  rw [RuntimeEvent.identity, hbody, RuntimeEvent.identity]

theorem names_entry (h : q.entry = r.entry) : q.names segmentId = r.names segmentId := by
  have hseg : q.segmentId = r.segmentId := (congrArg RuntimeEvent.segmentId h :)
  rw [RuntimeEvent.names, hseg, identity_entry h, RuntimeEvent.names]

/-- The log holds the entries it held, and at most the event that is committed. -/
theorem log_step (d : DB) (s : State) (op : Op) :
    (∀ r ∈ (d.step s op).runtimeEvents, (∃ q ∈ s.runtimeEvents, q.entry = r.entry) ∨
      ∃ e, op.event = some e ∧ r = d.runtimeEventRow e) ∧
    ∀ q ∈ s.runtimeEvents, ∃ r ∈ (d.step s op).runtimeEvents, q.entry = r.entry := by
  refine step_induct (P := fun s' : State =>
    (∀ r ∈ s'.runtimeEvents, (∃ q ∈ s.runtimeEvents, q.entry = r.entry) ∨
      ∃ e, op.event = some e ∧ r = d.runtimeEventRow e) ∧
    ∀ q ∈ s.runtimeEvents, ∃ r ∈ s'.runtimeEvents, q.entry = r.entry)
    ⟨fun r hr => .inl ⟨r, hr, rfl⟩, fun q hq => ⟨q, hq, rfl⟩⟩ fun s' hx => ?_
  obtain hsame | ⟨e, he, -, -, hrows⟩ := (exec_writes hx).log
  · refine ⟨fun r hr => ?_, fun q hq => ?_⟩
    · obtain ⟨q, hq, heq⟩ := List.mem_map.mp (hsame ▸ List.mem_map_of_mem hr)
      exact .inl ⟨q, hq, heq⟩
    · obtain ⟨r, hr, heq⟩ := List.mem_map.mp (hsame ▸ List.mem_map_of_mem hq)
      exact ⟨r, hr, heq.symm⟩
  · refine ⟨fun r hr => ?_, fun q hq => ⟨q, ?_, rfl⟩⟩
    · rw [Table.mem_def, hrows, List.mem_append, List.mem_singleton] at hr
      rcases hr with hr | rfl
      · exact .inl ⟨r, hr, rfl⟩
      · exact .inr ⟨e, he, rfl⟩
    · rw [Table.mem_def, hrows]
      exact List.mem_append_left _ hq

theorem identified_iff : s.identified segmentId = true ↔
    ∃ r ∈ s.runtimeEvents, r.names segmentId = true := by
  simp [State.identified, Table.mem_def]

theorem known_of_names (hr : r ∈ s.runtimeEvents) (hw : r.identity = some w) :
    w ∈ s.workerIdentities :=
  List.mem_append_right _ (List.mem_filterMap.mpr ⟨r, hr, hw⟩)

theorem validateOwnerRegistration_ok {u : Unit} : s.validateOwnerRegistration = .ok u ↔
    ∀ g ∈ s.segments, g.active = true → s.identified g.id = true := by
  simp [State.validateOwnerRegistration, Table.mem_def]

end Log

section Requests
variable {d : DB} {s : State} {grants grants' : Table GrantRow.id} {req : Request}
  {id token : String}

/-- A request that registers somebody passes only if the processes of all active segments are
known; another one may show an owner among its ancestors instead. -/
theorem check_ok (h : req.check d s grants id token = .ok grants') :
    s.validateOwnerRegistration = .ok () ∨ (req.kind.registers = false ∧
      ∃ o ∈ origins s grants, req.ancestors o.1 = o.2) := by
  obtain ⟨ancestors, kind, stage⟩ := req
  cases kind with
  | ownerBind controller origin =>
    simp only [Request.check, createOwnerGrant, bind_ok_iff, require_ok, expect_ok] at h
    obtain ⟨_, -, _, ⟨_, -, _, hv, -⟩, -⟩ := h
    exact .inl hv
  | submit =>
    simp only [Request.check, bind_ok_iff] at h
    obtain ⟨_, hv, -⟩ := h
    exact .inl hv
  | localSubmit g =>
    simp only [Request.check, validateOwnerGrant, bind_ok_iff, require_ok, expect_ok,
      exists_const] at h
    obtain ⟨⟨row, hrow, -, -, -, -, -, hpid, hbirth, -⟩, hanc, -⟩ := h
    refine .inr ⟨rfl, (row.originPid, row.originBirth), ?_, hpid ▸ hbirth ▸ hanc⟩
    exact List.mem_append_right _ (List.mem_map_of_mem (Table.find?_eq_some.mp hrow).1)
  | dispatch =>
    simp only [Request.check, bind_ok_iff] at h
    obtain ⟨_, h, -⟩ := h
    unfold validateDispatchPeer at h
    split at h
    · obtain ⟨o, ho, -, hanc⟩ := require_ok.mp h
      exact .inr ⟨rfl, o, ho, hanc⟩
    · exact .inl h

end Requests

section Runs
variable {d : DB} {s : Owners} {a : Action} {limits : ConcurrencyLimits} {segmentId : String}

theorem requests_put {c c' : Nat} {req req' : Request}
    (h : (s.put c req).requests c' = some req') : req' = req ∨ s.requests c' = some req' := by
  by_cases hc : c' = c
  · subst hc
    simp only [put, Function.update_self, Option.some.injEq] at h
    exact .inl h.symm
  · simp only [put, Function.update_of_ne hc] at h
    exact .inr h

/-- A request goes on, and has none of the identities of its new stage among its ancestors. -/
theorem Sound.put (hs : s.Sound) {c : Nat} {req : Request} (grants : Table GrantRow.id)
    (hreq : ∀ seen, req.stage = .authorized seen → ∀ w ∈ seen, req.ancestors w.1 ≠ w.2) :
    ({ s.put c req with grants := grants } : Owners).Sound := by
  refine ⟨hs.log, fun c' ancestors kind seen h => ?_⟩
  rcases requests_put h with rfl | h
  · exact hreq seen rfl
  · exact hs.seen c' ancestors kind seen h

theorem Sound.step (hs : s.Sound) (hc : s.Truthful a) : (step d s a).Sound := by
  cases a with
  | arrive c ancestors kind =>
    simp only [Owners.step]
    split
    · exact hs.put s.grants fun _ h => by cases h
    · exact hs
  | authorizePeer c =>
    simp only [Owners.step]
    split
    · rename_i ancestors kind _
      split
      · exact hs.put s.grants fun _ h => by cases h
      · rename_i hno
        refine hs.put s.grants fun seen h w hw heq => hno ?_
        cases h
        exact List.any_eq_true.mpr ⟨w, hw, by simpa using heq⟩
    · exact hs
  | check c id token =>
    simp only [Owners.step]
    split
    · split
      · exact hs.put _ fun _ h => by cases h
      · exact hs.put s.grants fun _ h => by cases h
    · exact hs
  | spawn segmentId w =>
    simp only [Owners.step]
    split
    · rename_i hnone
      refine ⟨fun e he id hn => ?_, hs.seen⟩
      by_cases hid : id = segmentId
      · subst hid
        obtain ⟨-, p, hp, -⟩ := names_iff.mp hn
        have hw := hs.log e he id hn
        rw [hnone, RuntimeEvent.identity, hp] at hw
        cases hw
      · simpa [hid] using hs.log e he id hn
    · exact hs
  | request op =>
    refine ⟨fun r hr id hn => ?_, hs.seen⟩
    rcases (log_step d s.store op).1 r hr with ⟨q, hq, heq⟩ | ⟨e, he, rfl⟩
    · rw [← identity_entry heq]
      exact hs.log q hq id ((names_entry heq).trans hn)
    · obtain ⟨rfl, p, hp, hpid, hbirth⟩ := names_iff.mp hn
      rw [RuntimeEvent.identity, hp]
      exact (hc e he p hp hpid hbirth).symm

theorem Sound.windowed (hs : s.Sound) : s.Windowed d a := by
  cases a with
  | check c id token =>
    intro ancestors kind seen hreq hok g hg ha w hw hanc
    obtain ⟨grants', hok⟩ := exists_of_isOk hok
    rcases check_ok hok with hvalid | hother
    · obtain ⟨r, hr, hn⟩ := identified_iff.mp (validateOwnerRegistration_ok.mp hvalid g hg ha)
      exact .inl ⟨fun hseen => hs.seen c ancestors kind seen hreq w hseen hanc,
        known_of_names hr ((hs.log r hr g.id hn).trans hw)⟩
    · exact .inr hother
  | arrive | authorizePeer | spawn | request => trivial

/-- In every run whose events name the processes of their segments: only between the two calls of
the store, and only by the event that names it, does a descendant of a worker become an owner. -/
theorem admitted_in_window (d : DB) (limits : ConcurrencyLimits) {actions : List Action}
    (hc : AllSteps (step d) Truthful { store := State.fresh limits } actions) :
    AllSteps (step d) (Windowed d) { store := State.fresh limits } actions :=
  hc.imp_when (K := Sound)
    ⟨fun _ h => absurd h (Table.not_mem_empty _), fun _ _ _ _ h => by cases h⟩
    (fun _ _ hs hc => hs.step hc) fun _ _ hs _ => hs.windowed

theorem Unknown.step {s : State} {op : Op} (h : Unknown segmentId s) (hr : d.Reachable limits s)
    (hc : ∀ e ∈ op.event, e.segmentId ≠ segmentId) : Unknown segmentId (d.step s op) := by
  obtain ⟨g, hg, rfl, ha, hid⟩ := h
  have hsame : (d.step s op).identified g.id = false := by
    refine Bool.eq_false_iff.mpr fun htrue => ?_
    obtain ⟨r, hr, hn⟩ := identified_iff.mp htrue
    rcases (log_step d s op).1 r hr with ⟨q, hq, heq⟩ | ⟨e, he, rfl⟩
    · rw [identified_iff.mpr ⟨q, hq, (names_entry heq).trans hn⟩] at hid
      cases hid
    · exact hc e he (names_iff.mp hn).1
  refine step_induct (P := fun s' => s'.identified g.id = false → Unknown g.id s')
    (fun _ => ⟨g, hg, rfl, ha, hid⟩) (fun s' hx hid' => ?_) hsame
  rcases (exec_effect (bound_of_reachable hr) hx).step.active hg ha with
    ⟨g', hg', hst, ha'⟩ | ⟨e, he, -, hseg, -⟩
  · exact ⟨g', hg', (congrArg Segment.id hst :), ha', hid'⟩
  · exact absurd hseg (hc e he)

theorem store_step (a : Action) : (step d s a).store = s.store ∨
    ∃ op, a = .request op ∧ (step d s a).store = d.step s.store op := by
  cases a with
  | request op => exact .inr ⟨op, rfl, rfl⟩
  | arrive | authorizePeer | check | spawn =>
    left
    simp only [Owners.step]
    split <;> try split
    all_goals rfl

theorem reachable_run {actions : List Action} (hr : d.Reachable limits s.store) :
    d.Reachable limits (run d s actions).store :=
  run_invariant (I := fun s : Owners => d.Reachable limits s.store) hr fun s a hs => by
    rcases store_step a with heq | ⟨op, -, heq⟩
    · rw [heq]
      exact hs
    · rw [heq]
      exact reachable_step op hs

/-- While no event of a segment arrives whose process is not known, nobody registers as an owner,
whatever else happens. -/
theorem deferred_until_event {actions : List Action} (hr : d.Reachable limits s.store)
    (hu : Unknown segmentId s.store)
    (hc : AllSteps (step d) (fun _ => Silent segmentId) s actions) :
    AllSteps (step d) (Defers d) s actions := by
  refine hc.imp_when (K := fun s : Owners => d.Reachable limits s.store ∧
    Unknown segmentId s.store) ⟨hr, hu⟩ (fun s a hs hc => ?_) fun s a hs _ => ?_
  · rcases store_step a with heq | ⟨op, rfl, heq⟩
    · rw [heq]
      exact hs
    · rw [heq]
      exact ⟨reachable_step op hs.1, hs.2.step hs.1 hc⟩
  · cases a with
    | check c id token =>
      intro req _ hreg
      refine Bool.eq_false_iff.mpr fun hok => ?_
      obtain ⟨grants', hok⟩ := exists_of_isOk hok
      obtain ⟨g, hg, rfl, ha, hid⟩ := hs.2
      rcases check_ok hok with hvalid | ⟨hno, -⟩
      · rw [validateOwnerRegistration_ok.mp hvalid g hg ha] at hid
        cases hid
      · rw [hreg] at hno
        cases hno
    | arrive | authorizePeer | spawn | request => trivial

end Runs

/-- The ancestors of a worker's child. -/
def childAncestry : Ancestry := fun pid => if pid = 100 then "worker" else ""

/-- Task `a` is claimed, and its worker started. -/
def startedActions : List Action :=
  ((toyStart [toyTask "a" 1 []] ++ [toyClaim 11]).map Action.request) ++
    [Action.spawn "segment-11" (100, "worker")]

/-- The worker's child connects, and the Host reports the worker before its request is checked. -/
def windowActions : List Action :=
  startedActions ++ [Action.arrive 0 childAncestry .submit, .authorizePeer 0,
    .request (.commitHostEvent (toyEnv 10)
      { toyEvent "a" 11 1 .spawned with process := some ⟨100, "worker", 100⟩ }),
    .check 0 "owner" "token"]

theorem worker_admitted_in_window :
    (((run toyDB { store := State.fresh {} } windowActions).requests 0).map Request.stage =
      some .admitted) ∧
    AllSteps (step toyDB) (Windowed toyDB) { store := State.fresh {} } windowActions :=
  ⟨by decide +kernel, admitted_in_window toyDB {} (by decide +kernel)⟩

theorem started_defers :
    AllSteps (step toyDB) (Defers toyDB) (run toyDB { store := State.fresh {} } startedActions)
      [.arrive 0 childAncestry .submit, .authorizePeer 0, .request (toyCommit "b" 12 1 .exited),
        .check 0 "owner" "token"] := by
  have hfacts : ∃ g ∈ (run toyDB { store := State.fresh {} } startedActions).store.segments.rows,
      g.id = "segment-11" ∧ g.active = true ∧
      (run toyDB { store := State.fresh {} } startedActions).store.identified "segment-11" =
        false := by
    decide +kernel
  obtain ⟨g, hg, hfacts⟩ := hfacts
  exact deferred_until_event (reachable_run (reachable_fresh toyDB {}))
    ⟨g, Table.mem_def.mpr hg, hfacts⟩ (by decide)

end Owners
end Orchestrator.Coordinator
