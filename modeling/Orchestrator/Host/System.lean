import Orchestrator.Host.Execute
import Orchestrator.Invariants.Slots
import Mathlib.Logic.Function.Basic

/-!
# Hosts and store together

The store, the launch commands it has issued, and one source Host per launch.
Commands and events travel by message: a command may reach its Host any number
of times, events reach the store in the order of the spool and may be sent again
until the published cursor has passed them. The store accepts Host events from
Hosts only.
-/
namespace Orchestrator.Host
open Library Store

structure World where
  store : State
  commands : List LaunchCommand
  sources : String → Source
  named : ∀ id, (sources id).producerId = id

def World.fresh (limits : ConcurrencyLimits) : World where
  store := State.fresh limits
  commands := []
  sources := fun id => { producerId := id }
  named := fun _ => rfl

inductive Action where
  /-- A store operation on behalf of a controller, a worker or the coordinator. -/
  | control (op : Op)
  | deliver (cmd : LaunchCommand) (epoch : Nat) (provider : String) (observed : Observed)
  | append (hostId commandId : String)
  | recover (hostId commandId : String)
  | work (hostId commandId : String) (ms : Nat)
  | publish (env : Env) (hostId : String) (epoch : Nat)
  | writePublished (hostId : String)
  | restart (hostId : String)

/-- The commands an operation hands to Hosts. -/
def issued (d : DB) (s : State) : Op → List LaunchCommand
  | .claimReady env hostId epoch slots =>
    match d.claimReady env s hostId epoch slots with
    | .ok (_, cmd) => [cmd]
    | .error _ => []
  | .pendingLaunches hostId epoch =>
    match pendingLaunches s hostId epoch with
    | .ok (_, cmds) => cmds
    | .error _ => []
  | _ => []

theorem Source.producerId_append (h : Source) (commandId : String) :
    (h.append commandId).producerId = h.producerId := by
  unfold Source.append; split <;> rfl

theorem Source.producerId_recover (h : Source) (commandId : String) :
    (h.recover commandId).producerId = h.producerId := by
  unfold Source.recover; split <;> rfl

theorem Source.producerId_acceptGrant (h : Source) (p : Platform) (grant : LaunchCommand)
    (provider : String) (observed : Observed) :
    (h.acceptGrant p grant provider observed).producerId = h.producerId := by
  unfold Source.acceptGrant
  split
  · rfl
  · split
    · split <;> rfl
    · rfl

def World.setSource (w : World) (id : String) (f : Source → Source)
    (hf : ∀ h, (f h).producerId = h.producerId) : World :=
  { w with
    sources := Function.update w.sources id (f (w.sources id))
    named := fun id' => by
      by_cases h : id' = id
      · subst h; rw [Function.update_self, hf, w.named]
      · rw [Function.update_of_ne h, w.named] }

/-- A Host sends its next event; `last` follows the acknowledgements. -/
def publish (d : DB) (env : Env) (w : World) (hostId : String) (epoch : Nat) : World :=
  match (w.sources hostId).nextEvent with
  | none => w
  | some e =>
    match d.commitHostEvent env w.store { e with executionEpoch := epoch } with
    | .ok (s, _) =>
      World.setSource { w with store := s } hostId (fun h => { h with last := e.sequence })
        (fun _ => rfl)
    | .error _ => w.setSource hostId (fun h => { h with last := h.published }) (fun _ => rfl)

def act (d : DB) (w : World) : Action → World
  | .control op =>
    if op.event = none then
      { w with store := d.step w.store op, commands := w.commands ++ issued d w.store op }
    else w
  | .deliver cmd epoch provider observed =>
    if cmd ∈ w.commands then
      w.setSource cmd.hostId
        (fun h => h.acceptGrant d.toPlatform { cmd with executionEpoch := epoch } provider observed)
        (fun h => h.producerId_acceptGrant _ _ _ _)
    else w
  | .append hostId commandId =>
    w.setSource hostId (·.append commandId) (fun h => h.producerId_append commandId)
  | .recover hostId commandId =>
    w.setSource hostId (·.recover commandId) (fun h => h.producerId_recover commandId)
  | .work hostId commandId ms => w.setSource hostId (·.work commandId ms) (fun _ => rfl)
  | .publish env hostId epoch => publish d env w hostId epoch
  | .writePublished hostId =>
    w.setSource hostId (fun h => { h with published := h.last }) (fun _ => rfl)
  | .restart hostId => w.setSource hostId Source.restart (fun _ => rfl)

def run (d : DB) (w : World) (acts : List Action) : World := Library.run (act d) w acts

/-- A world some run of Hosts and store reaches. -/
def Reachable (d : DB) (limits : ConcurrencyLimits) (w : World) : Prop :=
  ∃ acts, w = run d (World.fresh limits) acts

section Sources
variable {w : World} {id : String} {f : Source → Source} {hf : ∀ h, (f h).producerId = h.producerId}

@[simp] theorem setSource_store : (w.setSource id f hf).store = w.store := rfl
@[simp] theorem setSource_commands : (w.setSource id f hf).commands = w.commands := rfl

@[simp] theorem setSource_self : (w.setSource id f hf).sources id = f (w.sources id) :=
  Function.update_self ..

theorem setSource_of_ne {id' : String} (h : id' ≠ id) :
    (w.setSource id f hf).sources id' = w.sources id' := Function.update_of_ne h ..

/-- A property of every source holds again when the rewritten one has it. -/
theorem setSource_forall {P : String → Source → Prop} (h : ∀ id, P id (w.sources id))
    (hid : P id (f (w.sources id))) (id' : String) : P id' ((w.setSource id f hf).sources id') := by
  by_cases heq : id' = id
  · subst heq; rw [setSource_self]; exact hid
  · rw [setSource_of_ne heq]; exact h id'

end Sources

/-- What a Host does by itself. -/
inductive Local (p : Platform) (commands : List LaunchCommand) (h : Source) : Source → Prop
  | cursor (last published : Int) :
    Local p commands h { h with last := last, published := published }
  | accept {cmd : LaunchCommand} (hc : cmd ∈ commands) (hid : cmd.hostId = h.producerId)
      (epoch : Nat) (provider : String) (observed : Observed) : Local p commands h
        (h.acceptGrant p { cmd with executionEpoch := epoch } provider observed)
  | append (commandId : String) : Local p commands h (h.append commandId)
  | recover (commandId : String) : Local p commands h (h.recover commandId)
  | work (commandId : String) (ms : Nat) : Local p commands h (h.work commandId ms)
  | restart : Local p commands h h.restart

/-- The store operation an action asks for. -/
def World.op (w : World) : Action → Option Op
  | .control op => if op.event = none then some op else none
  | .publish env hostId epoch => (w.sources hostId).nextEvent.map fun e =>
      .commitHostEvent env { e with executionEpoch := epoch }
  | _ => none

/-- What one action does: the store takes a step, or a Host does, or both as the
store commits an event of the Host's spool. -/
inductive Acted (d : DB) (w : World) (asked : Option Op) : World → Prop
  | control {op : Op} (hasked : asked = some op) (hop : op.event = none) : Acted d w asked
      { w with store := d.step w.store op, commands := w.commands ++ issued d w.store op }
  | commit {env : Env} {hostId : String} {epoch : Nat} {e : Event} {s : State} {ack : DurableAck}
      (hasked : asked = some (.commitHostEvent env { e with executionEpoch := epoch }))
      (he : e ∈ (w.sources hostId).spool)
      (hs : d.commitHostEvent env w.store { e with executionEpoch := epoch } = .ok (s, ack)) :
      Acted d w asked (World.setSource { w with store := s } hostId
        (fun h => { h with last := e.sequence }) (fun _ => rfl))
  | source {id : String} {f : Source → Source} (hf : ∀ h, (f h).producerId = h.producerId)
      (hl : Local d.toPlatform w.commands (w.sources id) (f (w.sources id))) :
      Acted d w asked (w.setSource id f hf)
  | idle : Acted d w asked w

theorem acted (d : DB) (w : World) (a : Action) : Acted d w (w.op a) (act d w a) := by
  cases a with
  | control op =>
    simp only [act]
    split
    · rename_i hop; exact .control (if_pos hop) hop
    · exact .idle
  | deliver cmd epoch provider observed =>
    simp only [act]
    split
    · rename_i hc
      exact .source (fun h => h.producerId_acceptGrant _ _ _ _)
        (.accept hc (w.named cmd.hostId).symm epoch provider observed)
    · exact .idle
  | append hostId commandId =>
    exact .source (fun h => h.producerId_append commandId) (.append commandId)
  | recover hostId commandId =>
    exact .source (fun h => h.producerId_recover commandId) (.recover commandId)
  | work hostId commandId ms =>
    exact .source (f := (·.work commandId ms)) (fun _ => rfl) (.work commandId ms)
  | publish env hostId epoch =>
    simp only [act, publish]
    split
    · exact .idle
    · rename_i e he
      have hm : e ∈ (w.sources hostId).spool := List.mem_of_find?_eq_some he
      split
      · rename_i s ack hs; exact .commit (by simp [World.op, he]) hm hs
      · exact .source (f := fun h => { h with last := h.published }) (fun _ => rfl) (.cursor _ _)
  | writePublished hostId =>
    exact .source (f := fun h => { h with published := h.last }) (fun _ => rfl) (.cursor _ _)
  | restart hostId => exact .source (f := Source.restart) (fun _ => rfl) .restart

/-! ## Runs -/

theorem step_commit {d : DB} {env : Env} {s s' : State} {e : Event} {ack : DurableAck}
    (h : d.commitHostEvent env s e = .ok (s', ack)) : d.step s (.commitHostEvent env e) = s' :=
  step_of_exec (committed_ok.mpr ⟨ack, h⟩)

/-- The store of a world takes steps of its own. -/
theorem Acted.store {d : DB} {limits : ConcurrencyLimits} {w w' : World}
    {asked : Option Op} (h : d.Reachable limits w.store) (ha : Acted d w asked w') :
    d.Reachable limits w'.store := by
  cases ha with
  | control => exact reachable_step _ h
  | commit _ _ hs => exact step_commit hs ▸ reachable_step _ h
  | source => exact h
  | idle => exact h

/-- An invariant of every action holds in every reachable world. -/
theorem reachable_induct {d : DB} {limits : ConcurrencyLimits} {P : World → Prop}
    (h0 : P (World.fresh limits))
    (hact : ∀ w asked w', d.Reachable limits w.store → P w → Acted d w asked w' → P w') {w : World}
    (h : Reachable d limits w) : d.Reachable limits w.store ∧ P w := by
  obtain ⟨acts, rfl⟩ := h
  refine run_invariant (I := fun w => d.Reachable limits w.store ∧ P w)
    ⟨reachable_fresh d limits, h0⟩ fun w a ⟨hr, hp⟩ => ?_
  exact ⟨(acted d w a).store hr, hact w _ _ hr hp (acted d w a)⟩

theorem store_reachable {d : DB} {limits : ConcurrencyLimits} {w : World}
    (h : Reachable d limits w) : d.Reachable limits w.store :=
  (reachable_induct (P := fun _ => True) trivial (fun _ _ _ _ _ _ => trivial) h).1

/-! ## Commands and grants -/

/-- The command launches the segment `g`. -/
def Launches (cmd : LaunchCommand) (g : Segment) : Prop :=
  g.id = cmd.segmentId ∧ g.commandId = cmd.commandId ∧ g.taskId = cmd.taskId ∧
    g.attemptId = cmd.attemptId ∧ g.hostId = cmd.hostId ∧
    g.reservation.grantedMs = cmd.grantedActiveMs

theorem Launches.of_static {cmd : LaunchCommand} {g k : Segment} (h : Launches cmd g)
    (hs : k.static = g.static) : Launches cmd k := by
  obtain ⟨h1, h2, h3, h4, h5, h6⟩ := h
  exact ⟨(Segment.static_id hs).trans h1, (congrArg Segment.commandId hs : _).trans h2,
    (Segment.static_taskId hs).trans h3, (Segment.static_attemptId hs).trans h4,
    (Segment.static_hostId hs).trans h5, (Segment.static_grantedMs hs).trans h6⟩

/-- Every command an operation hands out launches a segment it leaves. -/
theorem issued_launches {d : DB} {s : State} {op : Op} {cmd : LaunchCommand}
    (h : cmd ∈ issued d s op) : ∃ g ∈ (d.step s op).segments, Launches cmd g := by
  cases op with
  | claimReady env hostId epoch slots =>
    simp only [issued] at h
    split at h
    · rename_i s' cmd' hclaim
      obtain rfl := List.mem_singleton.mp h
      have hexec : d.exec s (.claimReady env hostId epoch slots) = .ok s' :=
        committed_ok.mpr ⟨_, hclaim⟩
      rw [step_of_exec hexec]
      obtain ⟨t, place, hx⟩ := claimReady_iff.mp hclaim
      obtain ⟨c₁, c₂, capabilities, -, h₂, -, rfl, rfl⟩ := launch_cases hx.launched
      obtain ⟨segments, hi, rfl⟩ := startSegment_cases h₂
      exact ⟨_, (Table.mem_insert hi).mpr (.inr rfl), rfl, rfl, rfl, rfl, rfl, rfl⟩
    · cases h
  | pendingLaunches hostId epoch =>
    simp only [issued] at h
    split at h
    · rename_i s' cmds hpend
      have hexec : d.exec s (.pendingLaunches hostId epoch) = .ok s' :=
        committed_ok.mpr ⟨_, hpend⟩
      rw [step_of_exec hexec]
      simp only [pendingLaunches, bind_ok_iff, require_ok, expect_ok, exists_const,
        Except.ok.injEq, Prod.mk.injEq] at hpend
      obtain ⟨host, -, -, commands, hmap, rfl, rfl⟩ := hpend
      obtain ⟨g, hg, hcmd⟩ := mem_of_mapM hmap h
      simp only [State.pendingCommand, bind_ok_iff, expect_ok, Except.ok.injEq] at hcmd
      obtain ⟨t, ht, c, -, rfl⟩ := hcmd
      obtain ⟨-, hid⟩ := Table.find?_eq_some.mp ht
      simp only [List.mem_insertionSort, List.mem_filter] at hg
      exact ⟨g, hg.1, rfl, rfl, hid.symm, rfl, rfl, rfl⟩
    · cases h
  | _ => cases h

/-- The grants of a Host were commands for it. -/
def Ledger (commands : List LaunchCommand) (id : String) (h : Source) : Prop :=
  ∀ k ∈ h.workers, ∃ cmd ∈ commands, cmd.hostId = id ∧
    k.grant = { cmd with executionEpoch := k.grant.executionEpoch }

/-- Commands launch segments, and grants were commands. -/
structure Granted (w : World) : Prop where
  commands : ∀ cmd ∈ w.commands, ∃ g ∈ w.store.segments, Launches cmd g
  workers : ∀ id, Ledger w.commands id (w.sources id)

theorem mem_restart {h : Source} {k' : Worker} : k' ∈ h.restart.workers ↔
    ∃ k ∈ h.workers, { k with todo := [], recovery := [] } = k' := by
  simp only [Source.restart, Table.mem_update, Table.patch, if_true]

/-- A worker's grant is in the ledger for good; a new one is a delivered command. -/
theorem Local.grant_of {p : Platform} {commands : List LaunchCommand} {h h' : Source}
    (hl : Local p commands h h') {k' : Worker} (hk : k' ∈ h'.workers) :
    (∃ k ∈ h.workers, k.grant = k'.grant) ∨ ∃ cmd ∈ commands, cmd.hostId = h.producerId ∧
      k'.grant = { cmd with executionEpoch := k'.grant.executionEpoch } := by
  cases hl with
  | cursor => exact .inl ⟨k', hk, rfl⟩
  | @accept cmd hc hid epoch provider observed =>
    rcases h.acceptGrant_cases p { cmd with executionEpoch := epoch } provider observed with
      heq | ⟨_, -, -, -, heq⟩ | ⟨workers, hi, heq⟩ <;> rw [heq] at hk
    · exact .inl ⟨k', hk, rfl⟩
    · obtain ⟨k, hkm, rfl⟩ := Source.mem_setWorker.mp hk
      exact .inl ⟨k, hkm, by split <;> rfl⟩
    · rcases (Table.mem_insert hi).mp hk with hk | rfl
      · exact .inl ⟨k', hk, rfl⟩
      · exact .inr ⟨cmd, hc, hid, rfl⟩
  | append id =>
    rcases h.append_cases id with heq | ⟨_, -, -, _, _, -, heq⟩ <;> rw [heq] at hk
    · exact .inl ⟨k', hk, rfl⟩
    · obtain ⟨k, hkm, rfl⟩ := Source.mem_setWorker.mp hk
      exact .inl ⟨k, hkm, by split <;> rfl⟩
  | recover id =>
    rcases h.recover_cases id with heq | ⟨_, -, -, _, _, _, -, heq⟩ <;> rw [heq] at hk
    · exact .inl ⟨k', hk, rfl⟩
    · obtain ⟨k, hkm, rfl⟩ := Source.mem_setWorker.mp hk
      exact .inl ⟨k, hkm, by split <;> rfl⟩
  | work id ms =>
    obtain ⟨k, hkm, rfl⟩ := Source.mem_setWorker.mp hk
    exact .inl ⟨k, hkm, by split <;> [(split <;> rfl); rfl]⟩
  | restart =>
    obtain ⟨k, hkm, rfl⟩ := mem_restart.mp hk
    exact .inl ⟨k, hkm, rfl⟩

/-- A Host adds at most one event to its spool at a time. -/
theorem Local.spool_eq {p : Platform} {commands : List LaunchCommand} {h h' : Source}
    (hl : Local p commands h h') : h'.spool = h.spool ∨
      ∃ grant draft, h'.spool = h.spool ++ [h.structuredEvent grant draft] := by
  cases hl with
  | cursor => exact .inl rfl
  | @accept cmd hc hid epoch provider observed =>
    rcases h.acceptGrant_cases p { cmd with executionEpoch := epoch } provider observed with
      heq | ⟨_, -, -, -, heq⟩ | ⟨workers, -, heq⟩ <;> rw [heq] <;> exact .inl rfl
  | append id =>
    rcases h.append_cases id with heq | ⟨k, -, -, draft, _, -, heq⟩ <;> rw [heq]
    · exact .inl rfl
    · exact .inr ⟨k.grant, draft, rfl⟩
  | recover id =>
    rcases h.recover_cases id with heq | ⟨_, -, -, grant, draft, _, -, heq⟩ <;> rw [heq]
    · exact .inl rfl
    · exact .inr ⟨grant, draft, rfl⟩
  | work => exact .inl rfl
  | restart => exact .inl rfl

theorem Local.spool_keeps {p : Platform} {commands : List LaunchCommand} {h h' : Source}
    (hl : Local p commands h h') {e : Event} (he : e ∈ h.spool) : e ∈ h'.spool := by
  obtain heq | ⟨grant, draft, heq⟩ := hl.spool_eq <;> rw [heq]
  · exact he
  · exact List.mem_append_left _ he

theorem step_grows {d : DB} {limits : ConcurrencyLimits} {s : State} (h : d.Reachable limits s)
    (op : Op) : Grows s.toCore (d.step s op).toCore :=
  step_induct (P := fun s' => Grows s.toCore s'.toCore) (.refl _)
    fun _ hx => (exec_effect (bound_of_reachable h) hx).step.grows

section Granted
variable {d : DB} {limits : ConcurrencyLimits} {w w' : World} {asked : Option Op}

theorem Granted.store (h : Granted w) {s : State} (hs : Grows w.store.toCore s.toCore) :
    ∀ cmd ∈ w.commands, ∃ g ∈ s.segments, Launches cmd g := by
  intro cmd hc
  obtain ⟨g, hg, hl⟩ := h.commands cmd hc
  obtain ⟨g', hg', hst⟩ := hs.segment hg
  exact ⟨g', hg', hl.of_static hst⟩

theorem Granted.acted (h : Granted w) (hr : d.Reachable limits w.store)
    (ha : Acted d w asked w') : Granted w' := by
  cases ha with
  | @control op =>
    refine ⟨fun cmd hc => ?_, fun id k hk => ?_⟩
    · rcases List.mem_append.mp hc with hc | hc
      · exact h.store (step_grows hr op) cmd hc
      · exact issued_launches hc
    · obtain ⟨cmd, hc, hx⟩ := h.workers id k hk
      exact ⟨cmd, List.mem_append_left _ hc, hx⟩
  | @commit _ hostId _ _ _ _ _ _ hs =>
    refine ⟨h.store (step_commit hs ▸ step_grows hr _), ?_⟩
    exact setSource_forall (P := Ledger w.commands) h.workers (h.workers hostId)
  | @source id f hf hl =>
    refine ⟨h.commands, setSource_forall (P := Ledger w.commands) h.workers fun k' hk' => ?_⟩
    rcases hl.grant_of hk' with ⟨k, hk, heq⟩ | ⟨cmd, hc, hid, heq⟩
    · rw [← heq]; exact h.workers id k hk
    · exact ⟨cmd, hc, hid.trans (w.named id), heq⟩
  | idle => exact h

end Granted

theorem granted_fresh (limits : ConcurrencyLimits) : Granted (World.fresh limits) :=
  ⟨fun _ h => absurd h List.not_mem_nil, fun _ _ h => absurd h (Table.not_mem_empty _)⟩

theorem granted_of_reachable {d : DB} {limits : ConcurrencyLimits} {w : World}
    (h : Reachable d limits w) : Granted w :=
  (reachable_induct (granted_fresh limits) (fun _ _ _ hr hg ha => hg.acted hr ha) h).2

/-- One grant for each segment. -/
theorem Granted.grant_unique {w : World} (h : Granted w) {id id' : String} {k k' : Worker}
    (hk : k ∈ (w.sources id).workers) (hk' : k' ∈ (w.sources id').workers)
    (hseg : k.grant.segmentId = k'.grant.segmentId) :
    id = id' ∧ k.grant.commandId = k'.grant.commandId := by
  obtain ⟨cmd, hc, hid, heq⟩ := h.workers id k hk
  obtain ⟨cmd', hc', hid', heq'⟩ := h.workers id' k' hk'
  obtain ⟨g, hg, h1, h2, -, -, h5, -⟩ := h.commands cmd hc
  obtain ⟨g', hg', h1', h2', -, -, h5', -⟩ := h.commands cmd' hc'
  have hsame : g = g' := by
    refine Table.eq_of_key hg hg' ?_
    rw [h1, h1', ← show k.grant.segmentId = cmd.segmentId by rw [heq],
      ← show k'.grant.segmentId = cmd'.segmentId by rw [heq'], hseg]
  subst hsame
  rw [heq, heq']
  exact ⟨by rw [← hid, ← hid', ← h5, ← h5'], h2.symm.trans h2'⟩

/-- The command handed out last. -/
def World.lastCommand (w : World) : LaunchCommand := w.commands.getLast?.getD {}

/-! ## A small deployment -/

def toyIdentity : ProcessIdentity := ⟨3, "birth", 3⟩

def toyTerminal (failed : Bool) (kind : String) : Observed :=
  .structured toyIdentity (some "session") 0 ⟨failed, kind, true, "session", none⟩

/-- The Host is ready, and the first task claimed. -/
def toyLaunched (tasks : List TaskSpec) : List Action :=
  (toyStart tasks ++ [toyClaim 11]).map .control

/-- The last command is delivered, executed with what is `observed`, and its
first `appended` events are appended and sent. -/
def toyExecuted (d : DB) (acts : List Action) (n appended : Nat) (observed : Observed) :
    List Action :=
  acts ++ [Action.deliver (run d (World.fresh {}) acts).lastCommand 1 "claude" observed] ++
    List.replicate appended (Action.append "host" ("command-" ++ toString n)) ++
    List.replicate appended (Action.publish (toyEnv 10) "host" 1)

end Orchestrator.Host
