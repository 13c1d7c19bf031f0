import Orchestrator.Bridge.Ledger
import Mathlib.Data.List.Nodup

/-!
# The slot of a controller thread

What the ledger keeps whatever the processes do and wherever they die: a thread has one batch that
blocks its slot at most, the status of a batch only goes forward, a batch is sent once, and what
it is a batch of does not change.
-/
namespace Orchestrator.Bridge
open Library PythonJson

/-! ## Directories -/

section
variable {s : LedgerDir} {d d' : BatchDir} {id id' : Text}

def BatchDir.state? (d : BatchDir) : Option Status :=
  match d.status with
  | some (.whole f) => some f.state
  | _ => none

def BatchDir.thread? (d : BatchDir) : Option Text :=
  match d.intent with
  | some (.whole i) => some i.controllerThread
  | _ => none

/-- The batch blocks the slot of its thread. -/
def BatchDir.Blocks (d : BatchDir) : Prop := ∃ status, d.state? = some status ∧ status.blocks

theorem find?_mem (h : s.find? id = some d) : (id, d) ∈ s.batches := by
  obtain ⟨batch, hfind, rfl⟩ := Option.map_eq_some_iff.1 h
  have hid := List.find?_some hfind
  simp only [decide_eq_true_eq] at hid
  rw [← hid]
  exact List.mem_of_find?_eq_some hfind

theorem find?_of_mem (hnodup : (s.batches.map (·.1)).Nodup) (h : (id, d) ∈ s.batches) :
    s.find? id = some d := by
  obtain ⟨before, after, hsplit⟩ := List.append_of_mem h
  rw [hsplit, List.map_append, List.map_cons] at hnodup
  have hbefore : ∀ batch ∈ before, ¬ batch.1 = id := by
    intro batch hbatch heq
    have hdisjoint := (List.nodup_append.1 hnodup).2.2 _ (List.mem_map_of_mem hbatch)
    exact hdisjoint _ List.mem_cons_self heq
  rw [LedgerDir.find?, hsplit, List.find?_append, List.find?_eq_none.2 (by simpa using hbefore)]
  simp

theorem mem_set {p : Text × BatchDir} (h : p ∈ (s.set id d).batches) :
    p = (id, d) ∨ p ∈ s.batches ∧ p.1 ≠ id := by
  obtain ⟨batch, hbatch, rfl⟩ := List.mem_map.1 h
  split
  · exact .inl rfl
  next hne => exact .inr ⟨hbatch, hne⟩

theorem set_ids : (s.set id d).batches.map (·.1) = s.batches.map (·.1) := by
  rw [LedgerDir.set, List.map_map]
  refine List.map_congr_left fun batch _ => ?_
  simp only [Function.comp_apply]
  split
  next heq => exact heq.symm
  · rfl

theorem mem_set_self (h : (id, d') ∈ s.batches) : (id, d) ∈ (s.set id d).batches :=
  List.mem_map.2 ⟨_, h, if_pos rfl⟩

theorem mem_set_other {p : Text × BatchDir} (h : p ∈ s.batches) (hne : p.1 ≠ id) :
    p ∈ (s.set id d).batches :=
  List.mem_map.2 ⟨p, h, if_neg hne⟩

end

/-! ## Invariants -/

section
variable {π : Type} {size : Attachment → Nat} {s s' : LedgerDir}
  {l : List (π × LedgerResult)} {b b' : LedgerAt}

/-- A file of a batch that has been written. -/
def BatchDir.Has (d : BatchDir) (r : Request) : BatchFile → Prop
  | .owner => d.owner = some (.whole r.attachment)
  | .binding => d.binding = some (.whole r.ownerBinding)
  | .intent => d.intent = some (.whole r.intent)
  | .claim => d.claim = some (.whole r.claim)
  | .source => d.source = some (.whole r.sourceFile)
  | .status => d.status = some (.whole r.statusFile)

/-- The files of a batch that are never written again are those of a request, and its status is
whole. -/
structure BatchDir.Published (d : BatchDir) (r : Request) (f : StatusFile) : Prop where
  owner : d.owner = some (.whole r.attachment)
  binding : d.binding = some (.whole r.ownerBinding)
  intent : d.intent = some (.whole r.intent)
  claim : d.claim = some (.whole r.claim)
  source : d.source = some (.whole r.sourceFile)
  status : d.status = some (.whole f)
  deliveryId : f.deliveryId = r.id
  thread : f.controllerThread = r.thread
  epoch : f.controllerEpoch = r.epoch

/-- The call has sent the batch. -/
def sends (id : Text) : LedgerResult → Bool
  | (.transition id' .markSending, .ok _) => id' = id
  | _ => false

def sendCount (l : List (π × LedgerResult)) (id : Text) : Nat := l.countP fun e => sends id e.2

structure LedgerDir.Good (s : LedgerDir) (l : List (π × LedgerResult)) : Prop where
  published : ∀ batch ∈ s.batches, ∃ r f, r.id = batch.1 ∧ batch.2.Published r f
  nodup : (s.batches.map (·.1)).Nodup
  slots : ∀ p ∈ s.batches, ∀ q ∈ s.batches, p.2.Blocks → q.2.Blocks →
    p.2.thread? = q.2.thread? → p.1 = q.1
  sent : ∀ id, sendCount l id ≤ 1 ∧ (0 < sendCount l id → ∃ d, (id, d) ∈ s.batches ∧
    ∃ status, d.state? = some status ∧ 1 ≤ status.rank)

/-- The slot of a request is free, and there is no batch of its id. -/
structure LedgerDir.Free (s : LedgerDir) (r : Request) : Prop where
  unseen : ∀ d, (r.id, d) ∉ s.batches
  free : ∀ p ∈ s.batches, p.2.Blocks → p.2.thread? ≠ some r.thread

/-- A batch whose status may be replaced by `f`. -/
def LedgerDir.Replaceable (s : LedgerDir) (id : Text) (t : Transition) (f : StatusFile)
    (d : BatchDir) : Prop :=
  s.find? id = some d ∧ ∃ old, d.status = some (.whole old) ∧ old.state ∈ t.allowed ∧
    f = t.apply old

/-- What holds at the operations of the ledger. -/
def LedgerAt.At (b : LedgerAt) (s : LedgerDir) (l : List (π × LedgerResult)) : Prop :=
  s.Good l ∧ match b.op with
  | .look r | .published r | .clean r _ => b.call = .prepare r
  | .mkdir r => b.call = .prepare r ∧ s.Free r
  | .create r f rest | .fill r f rest => b.call = .prepare r ∧ s.Free r ∧
    ∃ d written, s.stages r.id = some d ∧ written ++ f :: rest = BatchFile.all ∧
      ∀ g ∈ written, d.Has r g
  | .publish r => b.call = .prepare r ∧ s.Free r ∧
    ∃ d, s.stages r.id = some d ∧ ∀ g ∈ BatchFile.all, d.Has r g
  | .check id t _ | .enter id t => b.call = .transition id t
  | .stage id t f | .fillStage id t f =>
    b.call = .transition id t ∧ ∃ d, s.Replaceable id t f d
  | .rename id t => b.call = .transition id t ∧ ∃ d f, s.Replaceable id t f d ∧
    d.stages b.pid = some (.whole f)
  | .renamed id t => b.call = .transition id t ∧ (t = .markSending → sendCount l id = 0 ∧
    ∃ d, (id, d) ∈ s.batches ∧ ∃ status, d.state? = some status ∧ 1 ≤ status.rank)

/-! ## Loading -/

theorem load_ok {d : BatchDir} {id : Text} {batch : Batch} (h : d.load size id = .ok batch) :
    d.state? = some batch.status ∧ d.thread? = some batch.controllerThreadId := by
  unfold BatchDir.load at h
  simp only [bind_ok_iff, stableJson_ok, require_ok] at h
  obtain ⟨intent, ⟨hintent, -⟩, claim, -, status, ⟨hstatus, -⟩, source, -, owner, -, -, -, -, -, -,
    -, -, -, -, -, -, -, -, -, -, -, hbatch⟩ := h
  cases hbatch
  simp [BatchDir.state?, BatchDir.thread?, hstatus, hintent]

theorem ledger_load_ok {id : Text} {batch : Batch} (h : s.load size id = .ok batch) :
    ∃ d, s.find? id = some d ∧ d.state? = some batch.status ∧
      d.thread? = some batch.controllerThreadId := by
  unfold LedgerDir.load at h
  simp only [bind_ok_iff, require_ok, expect_ok] at h
  obtain ⟨-, -, d, hfind, hload⟩ := h
  exact ⟨d, hfind, load_ok hload⟩

theorem scan_ok {thread : Text} {batches : List (Text × BatchDir)}
    (hnodup : (s.batches.map (·.1)).Nodup) (hsub : ∀ p ∈ batches, p ∈ s.batches)
    (h : s.scan size thread batches = .ok ()) :
    ∀ p ∈ batches, p.2.Blocks → p.2.thread? ≠ some thread := by
  induction batches with
  | nil => exact fun p hp => by cases hp
  | cons batch batches ih =>
    obtain ⟨id, d⟩ := batch
    rw [LedgerDir.scan, bind_ok_iff] at h
    obtain ⟨loaded, hload, h⟩ := h
    split at h
    · cases h
    next hfree =>
      intro p hp hblocks hthread
      rcases List.mem_cons.1 hp with rfl | hp
      · obtain ⟨d', hfind, hstate, hthread'⟩ := ledger_load_ok hload
        rw [find?_of_mem hnodup (hsub _ List.mem_cons_self)] at hfind
        cases hfind
        obtain ⟨status, hstatus, hblocking⟩ := hblocks
        rw [hstate] at hstatus
        rw [hthread'] at hthread
        cases hstatus
        cases hthread
        exact hfree ⟨rfl, hblocking⟩
      · exact ih (fun p hp => hsub p (List.mem_cons_of_mem _ hp)) h p hp hblocks hthread

/-! ## Writing -/

theorem LedgerDir.Good.of_batches (h : s.Good l) (hbatches : s'.batches = s.batches) : s'.Good l :=
  ⟨hbatches ▸ h.published, hbatches ▸ h.nodup, hbatches ▸ h.slots, hbatches ▸ h.sent⟩

theorem LedgerDir.Free.of_batches {r : Request} (h : s.Free r) (hbatches : s'.batches = s.batches) :
    s'.Free r :=
  ⟨hbatches ▸ h.unseen, hbatches ▸ h.free⟩

theorem published_of_all {d : BatchDir} {r : Request} (h : ∀ g ∈ BatchFile.all, d.Has r g) :
    d.Published r r.statusFile where
  owner := h .owner (by decide)
  binding := h .binding (by decide)
  intent := h .intent (by decide)
  claim := h .claim (by decide)
  source := h .source (by decide)
  status := h .status (by decide)
  deliveryId := rfl
  thread := rfl
  epoch := rfl

theorem BatchDir.Published.thread? {d : BatchDir} {r : Request} {f : StatusFile}
    (h : d.Published r f) : d.thread? = some r.thread := by
  rw [BatchDir.thread?, h.intent]
  rfl

theorem BatchDir.Published.state? {d : BatchDir} {r : Request} {f : StatusFile}
    (h : d.Published r f) : d.state? = some f.state := by
  rw [BatchDir.state?, h.status]

theorem LedgerDir.Good.publish {r : Request} {d : BatchDir} (h : s.Good l) (hfree : s.Free r)
    (hall : ∀ g ∈ BatchFile.all, d.Has r g) :
    LedgerDir.Good { s.setStage r.id none with batches := s.batches ++ [(r.id, d)] } l := by
  have hpublished := published_of_all hall
  refine ⟨fun batch hbatch => ?_, ?_, fun p hp q hq hpb hqb hthread => ?_, fun id => ?_⟩
  · rcases List.mem_append.1 hbatch with hbatch | hbatch
    · exact h.published batch hbatch
    · rw [List.mem_singleton.1 hbatch]
      exact ⟨r, _, rfl, hpublished⟩
  · rw [List.map_append, List.nodup_append]
    refine ⟨h.nodup, List.nodup_singleton _, fun x hx y hy heq => ?_⟩
    obtain ⟨batch, hbatch, rfl⟩ := List.mem_map.1 hx
    rw [List.map_singleton, List.mem_singleton] at hy
    have hid : batch.1 = r.id := heq.trans hy
    exact hfree.unseen batch.2 (by rw [← hid]; exact hbatch)
  · rcases List.mem_append.1 hp with hp | hp <;> rcases List.mem_append.1 hq with hq | hq
    · exact h.slots p hp q hq hpb hqb hthread
    · rw [List.mem_singleton.1 hq] at hthread
      exact (hfree.free p hp hpb (hthread.trans hpublished.thread?)).elim
    · rw [List.mem_singleton.1 hp] at hthread
      exact (hfree.free q hq hqb (hthread.symm.trans hpublished.thread?)).elim
    · rw [List.mem_singleton.1 hp, List.mem_singleton.1 hq]
  · obtain ⟨hle, hsent⟩ := h.sent id
    refine ⟨hle, fun hpos => ?_⟩
    obtain ⟨d', hmem, hstate⟩ := hsent hpos
    exact ⟨d', List.mem_append_left _ hmem, hstate⟩

theorem find?_set {id : Text} {d d' : BatchDir} (h : s.Good l) (hfind : s.find? id = some d) :
    (s.set id d').find? id = some d' :=
  find?_of_mem (by rw [set_ids]; exact h.nodup) (mem_set_self (find?_mem hfind))

/-- A batch is replaced by one of the same request, which does not block a slot that the old one
does not. -/
theorem LedgerDir.Good.set {id : Text} {d d' : BatchDir} (h : s.Good l)
    (hfind : s.find? id = some d)
    (hpublished : ∀ r f, d.Published r f → ∃ f', d'.Published r f')
    (hblocks : d'.Blocks → d.Blocks) (hthread : d'.thread? = d.thread?)
    (hsent : ∀ status, d.state? = some status → 1 ≤ status.rank →
      ∃ status', d'.state? = some status' ∧ 1 ≤ status'.rank) : (s.set id d').Good l := by
  have hmem := find?_mem hfind
  have hold {p : Text × BatchDir} (hp : p ∈ (s.set id d').batches) :
      ∃ d₀, (p.1, d₀) ∈ s.batches ∧ (p.2.Blocks → d₀.Blocks) ∧ p.2.thread? = d₀.thread? := by
    rcases mem_set hp with rfl | ⟨hp, -⟩
    · exact ⟨d, hmem, hblocks, hthread⟩
    · exact ⟨p.2, hp, fun h => h, rfl⟩
  refine ⟨fun batch hbatch => ?_, by rw [set_ids]; exact h.nodup,
    fun p hp q hq hpb hqb hpq => ?_, fun id' => ?_⟩
  · rcases mem_set hbatch with rfl | ⟨hbatch, -⟩
    · obtain ⟨r, f, hr, hpub⟩ := h.published _ hmem
      obtain ⟨f', hpub'⟩ := hpublished r f hpub
      exact ⟨r, f', hr, hpub'⟩
    · exact h.published _ hbatch
  · obtain ⟨dp, hpmem, hpblocks, hpthread⟩ := hold hp
    obtain ⟨dq, hqmem, hqblocks, hqthread⟩ := hold hq
    exact h.slots (p.1, dp) hpmem (q.1, dq) hqmem (hpblocks hpb) (hqblocks hqb)
      (hpthread.symm.trans (hpq.trans hqthread))
  · obtain ⟨hle, hpos⟩ := h.sent id'
    refine ⟨hle, fun hcount => ?_⟩
    obtain ⟨d₀, hd₀, status, hstatus, hrank⟩ := hpos hcount
    by_cases hid : id' = id
    · subst hid
      have heq : d₀ = d := by
        have hfind' := find?_of_mem h.nodup hd₀
        rw [hfind] at hfind'
        exact (Option.some_inj.1 hfind').symm
      subst heq
      exact ⟨d', mem_set_self hmem, hsent status hstatus hrank⟩
    · exact ⟨d₀, mem_set_other hd₀ hid, status, hstatus, hrank⟩

/-- Only a file that nobody reads is written. -/
theorem LedgerDir.Good.setStages {id : Text} {d : BatchDir}
    {stages : Nat → Option (File StatusFile)} (h : s.Good l) (hfind : s.find? id = some d) :
    (s.set id { d with stages := stages }).Good l :=
  h.set hfind (fun _ f hpub => ⟨f, ⟨hpub.owner, hpub.binding, hpub.intent, hpub.claim, hpub.source,
    hpub.status, hpub.deliveryId, hpub.thread, hpub.epoch⟩⟩) (fun h => h) rfl
    fun status hstatus hrank => ⟨status, hstatus, hrank⟩

/-! ## The order of the statuses -/

theorem Transition.apply_state {t : Transition} {f : StatusFile} : (t.apply f).state = t.state := by
  cases t <;> rfl

/-- Forward, and no slot that is not blocked becomes so. -/
theorem Transition.forward {t : Transition} {status : Status} (h : status ∈ t.allowed) :
    status.rank ≤ t.state.rank ∧ (t.state.blocks → status.blocks) ∧ 1 ≤ t.state.rank := by
  revert h
  cases t <;> simp only [Transition.allowed, Transition.state] <;> cases status <;> decide

theorem Transition.apply_published {t : Transition} {d : BatchDir} {r : Request} {f : StatusFile}
    {stages : Nat → Option (File StatusFile)} (h : d.Published r f) :
    BatchDir.Published { d with status := some (.whole (t.apply f)), stages := stages } r
      (t.apply f) := by
  refine ⟨h.owner, h.binding, h.intent, h.claim, h.source, rfl, ?_, ?_, ?_⟩
  · exact (by cases t <;> rfl : (t.apply f).deliveryId = f.deliveryId).trans h.deliveryId
  · exact (by cases t <;> rfl : (t.apply f).controllerThread = f.controllerThread).trans h.thread
  · exact (by cases t <;> rfl : (t.apply f).controllerEpoch = f.controllerEpoch).trans h.epoch

/-- The rename of a new status. -/
theorem LedgerDir.Good.rename {id : Text} {t : Transition} {f : StatusFile} {d : BatchDir}
    {stages : Nat → Option (File StatusFile)} (h : s.Good l) (hd : s.Replaceable id t f d) :
    (s.set id { d with status := some (.whole f), stages := stages }).Good l := by
  obtain ⟨hfind, old, hold, hallowed, rfl⟩ := hd
  obtain ⟨-, hblocks, hrank⟩ := Transition.forward hallowed
  have hstate : d.state? = some old.state := by rw [BatchDir.state?, hold]
  refine h.set hfind (fun r f hpub => ?_) ?_ rfl fun _ _ _ =>
    ⟨t.state, congrArg some Transition.apply_state, hrank⟩
  · have hf : f = old := by
      have hstatus := hpub.status
      rw [hold] at hstatus
      cases hstatus
      rfl
    subst hf
    exact ⟨_, Transition.apply_published hpub⟩
  · rintro ⟨status, hstatus, hblocking⟩
    have hnew : some (t.apply old).state = some status := hstatus
    rw [Transition.apply_state] at hnew
    cases hnew
    exact ⟨old.state, hstate, hblocks hblocking⟩

/-! ## Steps -/

/-- What an operation that another one follows does to the files. -/
inductive LedgerDir.Moves (size : Attachment → Nat) (pid : Nat) (s : LedgerDir) :
    LedgerOp → LedgerDir → LedgerOp → Prop
  | look {r : Request} (hunseen : s.find? r.id = none)
      (hscan : s.scan size r.thread s.batches = .ok ()) : s.Moves size pid (.look r) s (.mkdir r)
  | mkdir {r : Request} (hstage : s.stages r.id = none) :
      s.Moves size pid (.mkdir r) (s.setStage r.id (some {})) (LedgerAt.nextFile r BatchFile.all)
  | taken {r : Request} (hstage : s.stages r.id ≠ none) :
      s.Moves size pid (.mkdir r) s (.clean r .system)
  | create {r : Request} {f : BatchFile} {rest : List BatchFile} :
      s.Moves size pid (.create r f rest)
        (s.setStage r.id ((s.stages r.id).map (·.put r false f))) (.fill r f rest)
  | fill {r : Request} {f : BatchFile} {rest : List BatchFile} :
      s.Moves size pid (.fill r f rest)
        (s.setStage r.id ((s.stages r.id).map (·.put r true f))) (LedgerAt.nextFile r rest)
  | publish {r : Request} {d : BatchDir} (hstage : s.stages r.id = some d) :
      s.Moves size pid (.publish r)
        { s.setStage r.id none with batches := s.batches ++ [(r.id, d)] } (.published r)
  | gone {r : Request} (hstage : s.stages r.id = none) :
      s.Moves size pid (.publish r) s (.clean r .system)
  | clean {r : Request} {e : BridgeError} {d : BatchDir} :
      s.Moves size pid (.clean r e) (s.setStage r.id (some d)) (.clean r e)
  | enter {id : Text} {t : Transition} {batch : Batch} {d : BatchDir} {f : StatusFile}
      (hload : s.load size id = .ok batch) (hfind : s.find? id = some d)
      (hstatus : d.status = some (.whole f)) (hallowed : batch.status ∈ t.allowed) :
      s.Moves size pid (.enter id t) s (.stage id t (t.apply f))
  | stage {id : Text} {t : Transition} {f : StatusFile} {d : BatchDir}
      (hfind : s.find? id = some d) (hfree : d.stages pid = none) :
      s.Moves size pid (.stage id t f)
        (s.set id { d with stages := Function.update d.stages pid (some .torn) })
        (.fillStage id t f)
  | fillStage {id : Text} {t : Transition} {f : StatusFile} {d : BatchDir}
      (hfind : s.find? id = some d) :
      s.Moves size pid (.fillStage id t f)
        (s.set id { d with stages := Function.update d.stages pid (some (.whole f)) })
        (.rename id t)
  | rename {id : Text} {t : Transition} {d : BatchDir} (hfind : s.find? id = some d) :
      s.Moves size pid (.rename id t)
        (s.set id { d with
          status := d.stages pid, stages := Function.update d.stages pid none })
        (.renamed id t)

theorem look_go {r : Request} (h : b.look size s r = .go b') :
    s.find? r.id = none ∧ s.scan size r.thread s.batches = .ok () ∧
      b' = { b with op := .mkdir r } := by
  unfold LedgerAt.look at h
  split at h
  · cases h
  next hunseen =>
    split at h
    · cases h
    next hscan =>
      cases h
      exact ⟨Option.not_isSome_iff_eq_none.1 hunseen, hscan, rfl⟩

/-- The `except` branch leaves every batch alone. -/
theorem unlinked {r : Request} {e : BridgeError} {r' : Leads LedgerAt LedgerResult}
    (h : b.clean s r e = (s', r')) :
    s'.batches = s.batches ∧ (r' = b.done (.error e) ∨
      r' = b.go (.clean r e) ∧ ∃ d, s' = s.setStage r.id (some d)) := by
  unfold LedgerAt.clean at h
  split at h
  · cases h
    exact ⟨rfl, .inl rfl⟩
  · split at h
    · cases h
      exact ⟨rfl, .inr ⟨rfl, _, rfl⟩⟩
    · cases h
      exact ⟨rfl, .inl rfl⟩

theorem LedgerAt.step_go (h : b.step size s = (s', .go b')) :
    (b'.pid = b.pid ∧ b'.call = b.call) ∧ s.Moves size b.pid b.op s' b'.op := by
  obtain ⟨pid, call, op⟩ := b
  unfold LedgerAt.step at h
  cases op with
  | look r =>
    obtain ⟨rfl, hlook⟩ := Prod.mk.inj h
    obtain ⟨hunseen, hscan, rfl⟩ := look_go hlook
    exact ⟨⟨rfl, rfl⟩, .look hunseen hscan⟩
  | mkdir r =>
    dsimp only at h
    split at h <;> cases h
    · exact ⟨⟨rfl, rfl⟩, .mkdir ‹_›⟩
    · exact ⟨⟨rfl, rfl⟩, .taken ‹_›⟩
  | create r f rest =>
    cases h
    exact ⟨⟨rfl, rfl⟩, .create⟩
  | fill r f rest =>
    cases h
    exact ⟨⟨rfl, rfl⟩, .fill⟩
  | publish r =>
    dsimp only at h
    split at h <;> cases h
    · exact ⟨⟨rfl, rfl⟩, .publish ‹_›⟩
    · exact ⟨⟨rfl, rfl⟩, .gone ‹_›⟩
  | clean r e =>
    obtain ⟨-, hclean | ⟨hclean, d, rfl⟩⟩ := unlinked h <;> cases hclean
    exact ⟨⟨rfl, rfl⟩, .clean⟩
  | enter id t =>
    dsimp only at h
    split at h
    · cases h
    · split at h <;> cases h
      exact ⟨⟨rfl, rfl⟩, .enter ‹_› ‹_› rfl ‹_›⟩
    · cases h
  | stage id t f =>
    dsimp only at h
    split at h
    · split at h <;> cases h
      exact ⟨⟨rfl, rfl⟩, .stage ‹_› ‹_›⟩
    · cases h
  | fillStage id t f =>
    dsimp only at h
    split at h <;> cases h
    exact ⟨⟨rfl, rfl⟩, .fillStage ‹_›⟩
  | rename id t =>
    dsimp only at h
    split at h <;> cases h
    exact ⟨⟨rfl, rfl⟩, .rename ‹_›⟩
  | published r | renamed id t => cases h
  | check id t turn =>
    dsimp only at h
    split at h
    · cases h
    · split at h <;> cases h

/-- The last operation of a call returns an error, or it is the one that reads a batch back. -/
theorem LedgerAt.step_done {r : LedgerResult} (h : b.step size s = (s', .done r)) :
    s'.batches = s.batches ∧ r.1 = b.call ∧ ((∃ e, r.2 = .error e) ∨
      (∃ r₀, b.op = .look r₀ ∨ b.op = .published r₀) ∨ ∃ id t, b.op = .renamed id t) := by
  obtain ⟨pid, call, op⟩ := b
  unfold LedgerAt.step at h
  cases op with
  | look r₀ =>
    obtain ⟨rfl, hlook⟩ := Prod.mk.inj h
    unfold LedgerAt.look at hlook
    split at hlook
    · cases hlook
      exact ⟨rfl, rfl, .inr (.inl ⟨r₀, .inl rfl⟩)⟩
    · split at hlook <;> cases hlook
      exact ⟨rfl, rfl, .inl ⟨_, rfl⟩⟩
  | published r₀ =>
    cases h
    exact ⟨rfl, rfl, .inr (.inl ⟨r₀, .inr rfl⟩)⟩
  | renamed id t =>
    cases h
    exact ⟨rfl, rfl, .inr (.inr ⟨id, t, rfl⟩)⟩
  | clean r₀ e =>
    obtain ⟨hbatches, hclean | ⟨hclean, -⟩⟩ := unlinked h <;> cases hclean
    exact ⟨hbatches, rfl, .inl ⟨e, rfl⟩⟩
  | create r₀ f rest | fill r₀ f rest => cases h
  | mkdir r₀ | publish r₀ =>
    dsimp only at h
    split at h <;> cases h
  | check id t turn =>
    dsimp only at h
    split at h
    · cases h
      exact ⟨rfl, rfl, .inl ⟨_, rfl⟩⟩
    · split at h <;> cases h
      exact ⟨rfl, rfl, .inl ⟨_, rfl⟩⟩
  | enter id t =>
    dsimp only at h
    split at h
    · cases h
      exact ⟨rfl, rfl, .inl ⟨_, rfl⟩⟩
    · split at h <;> cases h
      exact ⟨rfl, rfl, .inl ⟨_, rfl⟩⟩
    · cases h
      exact ⟨rfl, rfl, .inl ⟨_, rfl⟩⟩
  | stage id t f =>
    dsimp only at h
    split at h
    · split at h <;> cases h
      exact ⟨rfl, rfl, .inl ⟨_, rfl⟩⟩
    · cases h
      exact ⟨rfl, rfl, .inl ⟨_, rfl⟩⟩
  | fillStage id t f | rename id t =>
    dsimp only at h
    split at h <;> cases h
    exact ⟨rfl, rfl, .inl ⟨_, rfl⟩⟩

theorem has_put {d : BatchDir} {r : Request} {f g : BatchFile} {done : Bool}
    (h : g ≠ f → d.Has r g) (hdone : g = f → done = true) : (d.put r done f).Has r g := by
  by_cases hgf : g = f
  · subst hgf
    rw [hdone rfl]
    cases g <;> rfl
  · have hg := h hgf
    cases g <;> cases f <;> first | exact hg | exact (hgf rfl).elim

theorem nextFile_at {r : Request} {d : BatchDir} {written rest : List BatchFile} (hgood : s.Good l)
    (hcall : b.call = .prepare r) (hfree : s.Free r) (hstage : s.stages r.id = some d)
    (hall : written ++ rest = BatchFile.all) (hhas : ∀ g ∈ written, d.Has r g) :
    LedgerAt.At { b with op := LedgerAt.nextFile r rest } s l := by
  cases rest with
  | nil =>
    rw [List.append_nil] at hall
    exact ⟨hgood, hcall, hfree, d, hstage, hall ▸ hhas⟩
  | cons f rest => exact ⟨hgood, hcall, hfree, d, written, hstage, hall, hhas⟩

theorem written_not_mem {written rest : List BatchFile} {f : BatchFile}
    (h : written ++ f :: rest = BatchFile.all) : f ∉ written := by
  have hnodup : (written ++ f :: rest).Nodup := by
    rw [h]
    decide
  intro hf
  exact (List.nodup_append.1 hnodup).2.2 f hf f List.mem_cons_self rfl

/-- The rename of the status `sending` is the first of its batch. -/
theorem LedgerDir.Good.unsent {id : Text} {d : BatchDir} {f : StatusFile} (h : s.Good l)
    (hd : s.Replaceable id .markSending f d) : sendCount l id = 0 := by
  obtain ⟨hfind, old, hold, hallowed, -⟩ := hd
  by_contra hcount
  obtain ⟨d', hmem, status, hstatus, hrank⟩ := (h.sent id).2 (Nat.pos_of_ne_zero hcount)
  rw [find?_of_mem h.nodup hmem] at hfind
  cases hfind
  rw [BatchDir.state?, hold] at hstatus
  cases hstatus
  rw [List.mem_singleton.1 hallowed] at hrank
  cases hrank

/-- What a transition finds when it is allowed is what it replaces. -/
theorem replaceable_of_load {id : Text} {t : Transition} {batch : Batch} {d : BatchDir}
    {f : StatusFile} (hload : s.load size id = .ok batch) (hfind : s.find? id = some d)
    (hstatus : d.status = some (.whole f)) (hallowed : batch.status ∈ t.allowed) :
    s.Replaceable id t (t.apply f) d := by
  obtain ⟨d', hfind', hstate, -⟩ := ledger_load_ok hload
  rw [hfind] at hfind'
  cases hfind'
  rw [BatchDir.state?, hstatus] at hstate
  refine ⟨hfind, f, hstatus, ?_, rfl⟩
  rw [Option.some_inj.1 hstate]
  exact hallowed

/-- An operation that another one follows. -/
theorem LedgerDir.Moves.at {pid : Nat} {call : LedgerCall} {op op' : LedgerOp}
    (hmove : s.Moves size pid op s' op') (h : LedgerAt.At ⟨pid, call, op⟩ s l) :
    LedgerAt.At ⟨pid, call, op'⟩ s' l := by
  obtain ⟨hgood, h⟩ := h
  cases hmove with
  | look hunseen hscan =>
    refine ⟨hgood, h, fun d hd => ?_, scan_ok hgood.nodup (fun p hp => hp) hscan⟩
    rw [find?_of_mem hgood.nodup hd] at hunseen
    cases hunseen
  | @mkdir r =>
    obtain ⟨hcall, hfree⟩ := h
    exact @nextFile_at _ _ _ ⟨pid, call, .mkdir r⟩ _ _ [] _ (hgood.of_batches rfl) hcall
      (hfree.of_batches rfl) (Function.update_self ..) rfl fun _ h => absurd h List.not_mem_nil
  | taken | gone => exact ⟨hgood, h.1⟩
  | @create r f rest =>
    obtain ⟨hcall, hfree, d, written, hstage, hall, hhas⟩ := h
    refine ⟨hgood.of_batches rfl, hcall, hfree.of_batches rfl, d.put r false f, written, ?_, hall,
      fun g hg => has_put (fun _ => hhas g hg) ?_⟩
    · rw [hstage]
      exact Function.update_self ..
    · rintro rfl
      exact (written_not_mem hall hg).elim
  | @fill r f rest =>
    obtain ⟨hcall, hfree, d, written, hstage, hall, hhas⟩ := h
    refine @nextFile_at _ _ _ ⟨pid, call, .fill r f rest⟩ _ (d.put r true f) (written ++ [f]) _
      (hgood.of_batches rfl) hcall (hfree.of_batches rfl) ?_
      (by rw [← hall, List.append_assoc]; rfl) fun g hg => has_put (fun hne => ?_) fun _ => rfl
    · rw [hstage]
      exact Function.update_self ..
    · rcases List.mem_append.1 hg with hg | hg
      · exact hhas g hg
      · exact (hne (List.mem_singleton.1 hg)).elim
  | publish hstage =>
    obtain ⟨hcall, hfree, d, hstage', hall⟩ := h
    cases hstage.symm.trans hstage'
    exact ⟨hgood.publish hfree hall, hcall⟩
  | clean => exact ⟨hgood.of_batches rfl, h⟩
  | enter hload hfind hstatus hallowed =>
    exact ⟨hgood, h, _, replaceable_of_load hload hfind hstatus hallowed⟩
  | stage hfind =>
    obtain ⟨hcall, d, hfind', hold⟩ := h
    cases hfind.symm.trans hfind'
    exact ⟨hgood.setStages hfind, hcall, _, find?_set hgood hfind, hold⟩
  | fillStage hfind =>
    obtain ⟨hcall, d, hfind', hold⟩ := h
    cases hfind.symm.trans hfind'
    exact ⟨hgood.setStages hfind, hcall, _, _, ⟨find?_set hgood hfind, hold⟩,
      Function.update_self ..⟩
  | rename hfind =>
    obtain ⟨hcall, d, f, hd, hstaged⟩ := h
    cases hfind.symm.trans hd.1
    dsimp only at hstaged
    rw [hstaged]
    refine ⟨hgood.rename hd, hcall, ?_⟩
    rintro rfl
    refine ⟨hgood.unsent hd, _, mem_set_self (find?_mem hfind), .sending, ?_, Nat.le_refl _⟩
    obtain ⟨-, old, -, -, rfl⟩ := hd
    rfl

theorem LedgerAt.At.go (h : b.At s l) (hstep : b.step size s = (s', .go b')) : b'.At s' l := by
  obtain ⟨⟨hpid, hcall⟩, hmove⟩ := LedgerAt.step_go hstep
  obtain ⟨pid, call, op⟩ := b
  obtain ⟨pid', call', op'⟩ := b'
  cases hpid
  cases hcall
  exact hmove.at h

theorem sends_iff {id id' : Text} {t : Transition} {x : Except BridgeError Batch}
    (h : sends id' (.transition id t, x) = true) : id = id' ∧ t = .markSending := by
  unfold sends at h
  split at h
  next heq =>
    cases heq
    exact ⟨of_decide_eq_true h, rfl⟩
  · cases h

/-- What is returned is no second sending. -/
theorem LedgerDir.Good.returned (h : s.Good l) (p : π) {r : LedgerResult}
    (hr : ∀ id, sends id r = true → sendCount l id = 0 ∧
      ∃ d, (id, d) ∈ s.batches ∧ ∃ status, d.state? = some status ∧ 1 ≤ status.rank) :
    s.Good (l ++ [(p, r)]) := by
  refine ⟨h.published, h.nodup, h.slots, fun id => ?_⟩
  obtain ⟨hle, hsent⟩ := h.sent id
  have hcount : sendCount (l ++ [(p, r)]) id =
      sendCount l id + if sends id r = true then 1 else 0 := by
    rw [sendCount, sendCount, List.countP_append, List.countP_singleton]
  rw [hcount]
  cases hsend : sends id r with
  | false =>
    rw [if_neg (by decide)]
    exact ⟨hle, hsent⟩
  | true =>
    obtain ⟨hzero, hstate⟩ := hr id hsend
    rw [if_pos rfl, hzero]
    exact ⟨Nat.le_refl _, fun _ => hstate⟩

/-- An operation that is the last one. -/
theorem LedgerAt.At.done {r : LedgerResult} (h : b.At s l) (hstep : b.step size s = (s', .done r))
    (p : π) : s'.Good (l ++ [(p, r)]) := by
  obtain ⟨hbatches, hcall, hlast⟩ := LedgerAt.step_done hstep
  obtain ⟨pid, call, op⟩ := b
  obtain ⟨hgood, h⟩ := h
  obtain ⟨call', x⟩ := r
  cases hcall
  refine (hgood.of_batches hbatches).returned p fun id hsend => ?_
  rcases hlast with ⟨e, rfl⟩ | ⟨r₀, rfl | rfl⟩ | ⟨id', t, rfl⟩
  · -- an error sends nothing
    cases call <;> simp [sends] at hsend
  · cases h
    cases hsend
  · cases h
    cases hsend
  · obtain ⟨hcall, hsent⟩ := h
    cases hcall
    obtain ⟨rfl, rfl⟩ := sends_iff hsend
    rw [hbatches]
    exact hsent rfl

/-- The lock is given back before it is taken again with nothing changed. -/
theorem LedgerAt.At.yield (h : b.At s l) (hstep : b.step size s = (s', .yield b')) :
    s' = s ∧ b'.call = b.call ∧ ∃ id t turn, b.call = .transition id t ∧
      b.op = .check id t turn ∧ b'.op = .enter id t := by
  obtain ⟨pid, call, op⟩ := b
  obtain ⟨-, h⟩ := h
  unfold LedgerAt.step at hstep
  cases op with
  | check id t turn =>
    dsimp only at hstep
    split at hstep
    · cases hstep
    · split at hstep
      · cases hstep
        exact ⟨rfl, rfl, id, t, turn, h, rfl, rfl⟩
      · cases hstep
  | look r =>
    have hlook := (Prod.mk.inj hstep).2
    unfold LedgerAt.look at hlook
    split at hlook
    · cases hlook
    · split at hlook <;> cases hlook
  | clean r e =>
    rcases (unlinked hstep).2 with hclean | ⟨hclean, -⟩ <;> cases hclean
  | create r f rest => cases hstep
  | fill r f rest => cases hstep
  | published r => cases hstep
  | renamed id t => cases hstep
  | mkdir r =>
    dsimp only at hstep
    split at hstep <;> cases hstep
  | publish r =>
    dsimp only at hstep
    split at hstep <;> cases hstep
  | enter id t =>
    dsimp only at hstep
    split at hstep
    · cases hstep
    · split at hstep <;> cases hstep
    · cases hstep
  | stage id t f =>
    dsimp only at hstep
    split at hstep
    · split at hstep <;> cases hstep
    · cases hstep
  | fillStage id t f =>
    dsimp only at hstep
    split at hstep <;> cases hstep
  | rename id t =>
    dsimp only at hstep
    split at hstep <;> cases hstep

/-- The ledger, whatever crashes there are. -/
def ledgerRule (size : Attachment → Nat) (π : Type) : Rule π (ledger size) where
  waits b := (∃ r, b.call = .prepare r ∧ b.op = .look r) ∨ ∃ id t, b.call = .transition id t ∧
    (b.op = .enter id t ∨ ∃ turn, b.op = .check id t turn)
  quiet s l := s.Good l
  inside b s l := b.At s l
  mayCrash _ _ := True
  mayStep _ _ := True
  start := by
    rintro ⟨pid, call, -⟩
    cases call with
    | prepare r => exact .inl ⟨r, rfl, rfl⟩
    | transition id t =>
      refine .inr ⟨id, t, rfl, ?_⟩
      unfold ledger LedgerAt.begin
      dsimp only
      split
      · exact .inr ⟨_, rfl⟩
      · exact .inl rfl
  enter := by
    rintro ⟨pid, call, op⟩ s l hwaits hgood
    refine ⟨hgood, ?_⟩
    rcases hwaits with ⟨r, hcall, rfl⟩ | ⟨id, t, hcall, rfl | ⟨turn, rfl⟩⟩ <;> exact hcall
  crash h _ := h.1
  go h _ hstep := h.go hstep
  yield h _ hstep := by
    obtain ⟨rfl, hsame, id, t, -, hcall, -, hop⟩ := h.yield hstep
    exact ⟨h.1, .inr ⟨id, t, hsame.trans hcall, .inl hop⟩⟩
  done h _ hstep p := h.done hstep p

/-! ## What a run keeps -/

/-- Every batch that can be seen stays, with its files, and its status goes forward. -/
def LedgerDir.Before (s s' : LedgerDir) : Prop :=
  ∀ id d, (id, d) ∈ s.batches → ∃ d', (id, d') ∈ s'.batches ∧
    (d'.owner = d.owner ∧ d'.binding = d.binding ∧ d'.intent = d.intent ∧ d'.claim = d.claim ∧
      d'.source = d.source) ∧
    ∀ status, d.state? = some status → ∃ status', d'.state? = some status' ∧
      status.rank ≤ status'.rank

theorem LedgerDir.Before.of_mem (h : ∀ p ∈ s.batches, p ∈ s'.batches) : s.Before s' :=
  fun _ d hd => ⟨d, h _ hd, ⟨rfl, rfl, rfl, rfl, rfl⟩, fun status hstatus =>
    ⟨status, hstatus, Nat.le_refl _⟩⟩

theorem LedgerDir.Before.trans {s'' : LedgerDir} (h : s.Before s') (h' : s'.Before s'') :
    s.Before s'' := by
  intro id d hd
  obtain ⟨d', hd', ⟨howner, hbinding, hintent, hclaim, hsource⟩, hstate⟩ := h id d hd
  obtain ⟨d'', hd'', ⟨howner', hbinding', hintent', hclaim', hsource'⟩, hstate'⟩ := h' id d' hd'
  refine ⟨d'', hd'', ⟨howner'.trans howner, hbinding'.trans hbinding, hintent'.trans hintent,
    hclaim'.trans hclaim, hsource'.trans hsource⟩, fun status hstatus => ?_⟩
  obtain ⟨status', hstatus', hle⟩ := hstate status hstatus
  obtain ⟨status'', hstatus'', hle'⟩ := hstate' status' hstatus'
  exact ⟨status'', hstatus'', Nat.le_trans hle hle'⟩

theorem LedgerDir.Before.set {id : Text} {d : BatchDir} {status : Option (File StatusFile)}
    {stages : Nat → Option (File StatusFile)} (h : s.Good l) (hfind : s.find? id = some d)
    (hforward : ∀ old, d.state? = some old → ∃ new,
      BatchDir.state? { d with status := status, stages := stages } = some new ∧
        old.rank ≤ new.rank) :
    s.Before (s.set id { d with status := status, stages := stages }) := by
  intro id' d' hd'
  by_cases hid : id' = id
  · subst hid
    have hfind' := find?_of_mem h.nodup hd'
    rw [hfind] at hfind'
    cases hfind'
    exact ⟨_, mem_set_self hd', ⟨rfl, rfl, rfl, rfl, rfl⟩, hforward⟩
  · exact ⟨d', mem_set_other hd' hid, ⟨rfl, rfl, rfl, rfl, rfl⟩, fun status hstatus =>
      ⟨status, hstatus, Nat.le_refl _⟩⟩

/-- Only the operations on a status replace a directory that can be seen. -/
theorem LedgerDir.Moves.before {pid : Nat} {call : LedgerCall} {op op' : LedgerOp}
    (hmove : s.Moves size pid op s' op') (h : LedgerAt.At ⟨pid, call, op⟩ s l) : s.Before s' := by
  obtain ⟨hgood, h⟩ := h
  cases hmove with
  | publish => exact .of_mem fun p hp => List.mem_append_left _ hp
  | stage hfind => exact .set hgood hfind fun old hold => ⟨old, hold, Nat.le_refl _⟩
  | fillStage hfind => exact .set hgood hfind fun old hold => ⟨old, hold, Nat.le_refl _⟩
  | @rename _ t _ hfind =>
    obtain ⟨-, d, f, ⟨hfind', old, hold, hallowed, rfl⟩, hstaged⟩ := h
    cases hfind.symm.trans hfind'
    refine .set hgood hfind fun status hstatus => ⟨t.state, ?_, ?_⟩
    · dsimp only at hstaged
      rw [hstaged]
      exact congrArg some Transition.apply_state
    · rw [BatchDir.state?, hold] at hstatus
      cases hstatus
      exact (Transition.forward hallowed).1
  | look | mkdir | taken | create | fill | gone | clean | enter => exact .of_mem fun p hp => hp

theorem LedgerAt.At.before (h : b.At s l) : s.Before (b.step size s).1 := by
  cases hstep : b.step size s with
  | mk s' leads =>
    cases leads with
    | go b' => exact (LedgerAt.step_go hstep).2.before h
    | yield b' =>
      obtain ⟨rfl, -⟩ := h.yield hstep
      exact .of_mem fun p hp => hp
    | done r =>
      obtain ⟨hbatches, -⟩ := LedgerAt.step_done hstep
      exact .of_mem fun p hp => by rwa [hbatches]

/-- Nothing is there before the first call. -/
theorem good_empty : LedgerDir.Good {} ([] : List (π × LedgerResult)) where
  published batch hbatch := by cases hbatch
  nodup := List.nodup_nil
  slots p hp := by cases hp
  sent id := ⟨Nat.zero_le _, fun hcount => by cases hcount⟩

theorem allows_all [DecidableEq π] {w : Crowd π LedgerDir LedgerAt LedgerResult}
    {act : Act π LedgerStart} : (ledgerRule size π).Allows w act := by
  cases act <;> simp [Rule.Allows, ledgerRule]

/-- However the processes interleave and wherever they die, a thread has one batch at most that
blocks its slot, a batch keeps its files while its status goes forward, and is sent once. -/
theorem ledger_is_safe [DecidableEq π] (size : Attachment → Nat)
    (acts more : List (Act π LedgerStart)) :
    let w := run (ledger size).next (.quiet {}) acts
    let w' := run (ledger size).next w more
    (∀ p ∈ w.files.batches, ∃ thread status, p.2.thread? = some thread ∧
      p.2.state? = some status) ∧
    (∀ p ∈ w.files.batches, ∀ q ∈ w.files.batches, p.2.Blocks → q.2.Blocks →
      p.2.thread? = q.2.thread? → p = q) ∧
    (∀ id, sendCount w.returned id ≤ 1) ∧
    w.files.Before w'.files := by
  intro w w'
  have hholds : (ledgerRule size π).Holds w :=
    run_invariant (Rule.holds_quiet _ good_empty) fun _ _ hw => hw.next allows_all
  have hgood : w.files.Good w.returned := by
    cases hholder : w.holder with
    | none => exact hholds.quiet hholder
    | some holder => exact (hholds.inside hholder).1
  refine ⟨fun p hp => ?_, fun p hp q hq hpb hqb hthread => ?_, fun id => (hgood.sent id).1, ?_⟩
  · obtain ⟨r, f, -, hpublished⟩ := hgood.published p hp
    exact ⟨r.thread, f.state, hpublished.thread?, hpublished.state?⟩
  · have hid := hgood.slots p hp q hq hpb hqb hthread
    have hfind := find?_of_mem hgood.nodup hp
    rw [hid, find?_of_mem hgood.nodup hq] at hfind
    exact Prod.ext hid (Option.some_inj.1 hfind).symm
  · exact hholds.relates (fun _ => .of_mem fun _ hp => hp) (fun _ _ _ => .trans)
      (fun _ _ => allows_all) fun hinside => hinside.before

end
end Orchestrator.Bridge
