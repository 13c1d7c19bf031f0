import Orchestrator.Bridge.Slots

/-!
# Stages and crashes

A process that dies while it writes a batch or a status leaves the directory or the file that it
has written beside the others, and a later call that needs the name fails.
-/
namespace Orchestrator.Bridge
open Library PythonJson

/-! ## Files that can be read back -/

section
variable {size : Attachment → Nat} {s : LedgerDir} {d : BatchDir} {id : Text} {r : Request}
  {t : Transition} {f : StatusFile}

/-- The status files that a batch of the request may come to have. -/
inductive Request.Becomes (r : Request) : StatusFile → Prop
  | new : r.Becomes r.statusFile
  | apply {t : Transition} {f : StatusFile} : r.Becomes f → t.accepts → f.state ∈ t.allowed →
    r.Becomes (t.apply f)

/-- No file of a batch of the request is too large to be read. -/
structure Request.Fits (size : Attachment → Nat) (r : Request) : Prop where
  owner : size r.attachment ≤ maxJson
  intent : fileSize r.intent.value ≤ maxJson
  claim : fileSize r.claim.value ≤ maxJson
  source : fileSize r.sourceFile.value ≤ maxJson
  status : ∀ f, r.Becomes f → fileSize f.value ≤ maxJson

theorem projectRows_mapped {taskId : Text} {rows : List Row} {aliases slots : List Text}
    {native : List NativeEvent} {source : List SourceEvent}
    (h : projectRows taskId aliases slots rows = .ok (native, source)) :
    source.length = native.length ∧ ∀ pair ∈ source.zip native, mapped pair.1 pair.2 = true := by
  induction rows generalizing aliases slots native source with
  | nil =>
    cases h
    exact ⟨rfl, nofun⟩
  | cons row rows ih =>
    unfold projectRows at h
    simp only [bind_ok_iff, require_ok] at h
    obtain ⟨-, -, -, -, -, -, -, -, eventAlias, -, slotAlias, -, -, -, ⟨native', source'⟩, hrows,
      hpair⟩ := h
    cases hpair
    obtain ⟨hlength, hmapped⟩ := ih hrows
    refine ⟨congrArg (· + 1) hlength, fun pair hpair => ?_⟩
    rcases List.mem_cons.1 hpair with rfl | hpair
    · simp [mapped]
    · exact hmapped pair hpair

theorem Request.mapped (r : Request) : isSafe r.taskId = true ∧
    r.source.length = r.native.length ∧
      ∀ pair ∈ r.source.zip r.native, Bridge.mapped pair.1 pair.2 = true := by
  have h := r.projected
  unfold projectEvents at h
  simp only [bind_ok_iff, require_ok] at h
  obtain ⟨-, ⟨hsafe, -⟩, hrows⟩ := h
  exact ⟨hsafe, projectRows_mapped hrows⟩

theorem safe_ne_nil {x : Text} (h : isSafe x = true) : x ≠ [] := by
  rintro rfl
  cases h

theorem isSafe_of_hex {x : Text} (h : x.all isLowerHexDigit = true) :
    (x.all fun c => (0x41 ≤ c && c ≤ 0x5A) || (0x61 ≤ c && c ≤ 0x7A) || (0x30 ≤ c && c ≤ 0x39) ||
      c = 0x5F || c = 0x2D) = true := by
  refine List.all_eq_true.2 fun c hc => ?_
  have hhex := List.all_eq_true.1 h c hc
  simp only [isLowerHexDigit, Bool.or_eq_true, Bool.and_eq_true, decide_eq_true_eq] at hhex ⊢
  omega

theorem Request.id_safe (r : Request) :
    isSafe r.id = true ∧ (text "d_").isPrefixOf r.id = true := by
  have h := r.named
  unfold deliveryIdOf at h
  simp only [bind_ok_iff, expect_ok] at h
  obtain ⟨bytes, -, hid⟩ := h
  rw [← Except.ok.inj hid]
  have hlength : ((sha256Hex bytes).take 40).length = 40 := by
    rw [List.length_take, sha256Hex_length]
    rfl
  have hhex : ((sha256Hex bytes).take 40).all isLowerHexDigit = true :=
    List.all_eq_true.2 fun c hc => List.all_eq_true.1 sha256Hex_isHex c (List.mem_of_mem_take hc)
  constructor
  · rw [isSafe, List.length_append, hlength, List.all_append, isSafe_of_hex hhex]
    rfl
  · rw [List.isPrefixOf_iff_prefix]
    exact List.prefix_append ..

/-- A batch of which every file is there and fits can be read. -/
theorem load_published (hd : d.Published r r.statusFile) (hfits : r.Fits size) :
    ∃ batch, d.load size r.id = .ok batch ∧ batch.deliveryId = r.id := by
  obtain ⟨hsafe, hlength, hmapped⟩ := r.mapped
  refine ⟨⟨r.id, r.taskId, r.thread, r.epoch, .pending, nativeEnvelope r.intent, r.source, none,
    none, none⟩, ?_, rfl⟩
  unfold BatchDir.load
  simp only [bind_ok_iff, stableJson_ok, require_ok]
  exact ⟨r.intent, ⟨hd.intent, hfits.intent⟩, r.claim, ⟨hd.claim, hfits.claim⟩, r.statusFile,
    ⟨hd.status, hfits.status _ .new⟩, r.sourceFile, ⟨hd.source, hfits.source⟩, r.attachment,
    ⟨hd.owner, hfits.owner⟩, (), ⟨rfl, rfl, rfl⟩, (), ⟨rfl, rfl⟩, (), ⟨rfl, rfl⟩, (), rfl, (),
    ⟨rfl, rfl⟩, (), ⟨safe_ne_nil hsafe, hlength⟩, (), hmapped, (), nofun, rfl⟩

theorem Transition.apply_same : (t.apply f).deliveryId = f.deliveryId ∧
    (t.apply f).controllerThread = f.controllerThread ∧
    (t.apply f).controllerEpoch = f.controllerEpoch := by
  cases t <;> exact ⟨rfl, rfl, rfl⟩

theorem Transition.apply_proof (h : t.accepts)
    (hold : ∀ proof ∈ f.historyProofSha256, isHash proof = true) :
    ∀ proof ∈ (t.apply f).historyProofSha256, isHash proof = true := by
  cases t with
  | confirmHistory proof turn item =>
    intro proof' hproof
    cases (show some proof = some proof' from hproof)
    exact h.1
  | markSending => exact hold
  | markTransportAccepted turn => exact hold
  | markUncertain reason => exact hold
  | markControllerAcked ack => exact hold

/-- What can be read can be read with its next status. -/
theorem load_apply {batch : Batch} {stages : Nat → Option (File StatusFile)}
    (h : d.load size id = .ok batch) (hstatus : d.status = some (.whole f)) (ht : t.accepts)
    (hfits : fileSize (t.apply f).value ≤ maxJson) :
    ∃ batch', BatchDir.load size { d with
      status := some (.whole (t.apply f)), stages := stages } id = .ok batch' := by
  obtain ⟨hid, hthread, hepoch⟩ := t.apply_same (f := f)
  unfold BatchDir.load at h ⊢
  simp only [bind_ok_iff, stableJson_ok, require_ok] at h ⊢
  obtain ⟨intent, hintent, claim, hclaim, status, ⟨hfile, -⟩, source, hsource, owner, howner, -,
    hids, -, hthreads, -, hepochs, -, hhash, -, hclaimed, -, hsources, -, hmapped, -, hproof,
    -⟩ := h
  rw [hstatus] at hfile
  cases hfile
  exact ⟨_, intent, hintent, claim, hclaim, t.apply f, ⟨rfl, hfits⟩, source, hsource, owner,
    howner, (), by rw [hid]; exact hids, (), by rw [hthread]; exact hthreads, (),
    by rw [hepoch]; exact hepochs, (), hhash, (), hclaimed, (), hsources, (), hmapped, (),
    Transition.apply_proof ht hproof, rfl⟩

end

/-! ## Nothing is left over -/

section
variable {π : Type} {size : Attachment → Nat} {s s' : LedgerDir}
  {l : List (π × LedgerResult)} {b b' : LedgerAt}

/-- The batch is one of a request that fits, with the status it has come to. -/
def BatchDir.Ready (size : Attachment → Nat) (id : Text) (d : BatchDir) : Prop :=
  (∃ batch, d.load size id = .ok batch) ∧
    ∃ r f, r.id = id ∧ d.Published r f ∧ r.Fits size ∧ r.Becomes f

/-- There is no stage but those of `stage` and `status`, and every batch is ready. -/
structure LedgerDir.Tidy (size : Attachment → Nat) (stage : Text → Prop)
    (status : Text → Nat → Prop) (s : LedgerDir) : Prop where
  stages : ∀ id, ¬ stage id → s.stages id = none
  fresh : ∀ id d, s.stages id = some d → ∀ pid, d.stages pid = none
  statuses : ∀ p ∈ s.batches, ∀ pid, ¬ status p.1 pid → p.2.stages pid = none
  ready : ∀ p ∈ s.batches, p.2.Ready size p.1

def LedgerDir.Clean (size : Attachment → Nat) (s : LedgerDir) : Prop :=
  s.Tidy size (fun _ => False) fun _ _ => False

namespace LedgerAt

/-- The directory that the operation is about to fill or to rename. -/
def Stages (b : LedgerAt) (id : Text) : Prop :=
  match b.op with
  | .create r _ _ | .fill r _ _ | .publish r => id = r.id
  | _ => False

/-- The status that the operation is about to write or to rename. -/
def Replaces (b : LedgerAt) (id : Text) (pid : Nat) : Prop :=
  match b.op with
  | .fillStage id' _ _ | .rename id' _ => id = id' ∧ pid = b.pid
  | _ => False

def Cleans (b : LedgerAt) : Prop :=
  match b.op with
  | .clean _ _ => True
  | _ => False

/-- A process may die there: it leaves nothing that a later call cannot use. -/
def mayCrash (b : LedgerAt) : Prop :=
  match b.op with
  | .create _ _ _ | .fill _ _ _ | .publish _ | .fillStage _ _ _ | .rename _ _ => False
  | _ => True

/-- What is published can be read, now and with every later status. -/
def mayStep (size : Attachment → Nat) (b : LedgerAt) : Prop :=
  match b.op with
  | .publish r => r.Fits size
  | _ => True

/-- What holds at the operations where nothing has been left over. -/
structure AtClean (size : Attachment → Nat) (b : LedgerAt) (s : LedgerDir)
    (l : List (π × LedgerResult)) : Prop where
  place : b.At s l
  tidy : s.Tidy size b.Stages b.Replaces
  accepts : ∀ id t, b.call = .transition id t → t.accepts
  going : ¬ b.Cleans

end LedgerAt

theorem BatchDir.Ready.setStages {id : Text} {d : BatchDir}
    {stages : Nat → Option (File StatusFile)} (h : d.Ready size id) :
    BatchDir.Ready size id { d with stages := stages } := by
  obtain ⟨hload, r, f, hid, hpub, hfits, hbecomes⟩ := h
  exact ⟨hload, r, f, hid, ⟨hpub.owner, hpub.binding, hpub.intent, hpub.claim, hpub.source,
    hpub.status, hpub.deliveryId, hpub.thread, hpub.epoch⟩, hfits, hbecomes⟩

theorem BatchDir.Ready.apply {id : Text} {d : BatchDir} {t : Transition} {f : StatusFile}
    {stages : Nat → Option (File StatusFile)} (h : d.Ready size id)
    (hstatus : d.status = some (.whole f)) (ht : t.accepts) (hallowed : f.state ∈ t.allowed) :
    BatchDir.Ready size id { d with status := some (.whole (t.apply f)), stages := stages } := by
  obtain ⟨⟨batch, hload⟩, r, f', hid, hpub, hfits, hbecomes⟩ := h
  have hf := hpub.status
  rw [hstatus] at hf
  cases hf
  have hnext := hbecomes.apply ht hallowed
  exact ⟨load_apply hload hstatus ht (hfits.status _ hnext), r, _, hid,
    Transition.apply_published hpub, hfits, hnext⟩

theorem LedgerDir.Tidy.set {stage : Text → Prop} {status status' : Text → Nat → Prop} {id : Text}
    {d : BatchDir} (h : s.Tidy size stage status)
    (hstatuses : ∀ pid, ¬ status' id pid → d.stages pid = none)
    (hother : ∀ id' pid, id' ≠ id → status id' pid → status' id' pid)
    (hready : d.Ready size id) : (s.set id d).Tidy size stage status' where
  stages := h.stages
  fresh := h.fresh
  statuses p hp pid hpid := by
    rcases mem_set hp with rfl | ⟨hp, hne⟩
    · exact hstatuses pid hpid
    · exact h.statuses p hp pid fun hold => hpid (hother _ _ hne hold)
  ready p hp := by
    rcases mem_set hp with rfl | ⟨hp, -⟩
    · exact hready
    · exact h.ready p hp

theorem LedgerDir.Tidy.setStage {stage : Text → Prop} {status : Text → Nat → Prop} {id : Text}
    {d : BatchDir} (h : s.Tidy size stage status) (hstage : ∀ id', id' ≠ id → ¬ stage id')
    (hfresh : ∀ pid, d.stages pid = none) :
    (s.setStage id (some d)).Tidy size (· = id) status where
  stages id' hne := (Function.update_of_ne hne _ _).trans (h.stages id' (hstage id' hne))
  fresh id' d' hd' := by
    by_cases hid : id' = id
    · subst hid
      have hd : some d = some d' := (Function.update_self id' _ s.stages).symm.trans hd'
      cases hd
      exact hfresh
    · exact h.fresh id' d' ((Function.update_of_ne hid _ _).symm.trans hd')
  statuses := h.statuses
  ready := h.ready

theorem put_stages {d : BatchDir} {r : Request} {done : Bool} {f : BatchFile} :
    (d.put r done f).stages = d.stages := by
  cases f <;> rfl

theorem nextFile_tidy {r : Request} {rest : List BatchFile}
    (h : s.Tidy size (· = r.id) fun _ _ => False) :
    s.Tidy size (LedgerAt.Stages { b with op := LedgerAt.nextFile r rest })
      (LedgerAt.Replaces { b with op := LedgerAt.nextFile r rest }) := by
  cases rest with
  | nil => exact h
  | cons f rest => exact h

/-- A file that is put into the stage is the batch's, not one of a status. -/
theorem LedgerDir.Tidy.put {r : Request} {d : BatchDir} {done : Bool} {f : BatchFile}
    (h : s.Tidy size (· = r.id) fun _ _ => False) (hstage : s.stages r.id = some d) :
    (s.setStage r.id ((s.stages r.id).map (·.put r done f))).Tidy size (· = r.id)
      fun _ _ => False := by
  rw [hstage]
  refine h.setStage (fun _ h => h) fun pid => ?_
  rw [put_stages]
  exact h.fresh _ _ hstage pid

/-- The rename of a directory leaves no stage, and a batch that is ready. -/
theorem LedgerDir.Tidy.publish {r : Request} {d : BatchDir}
    (h : s.Tidy size (· = r.id) fun _ _ => False) (hstage : s.stages r.id = some d)
    (hall : ∀ g ∈ BatchFile.all, d.Has r g) (hfits : r.Fits size) :
    LedgerDir.Clean size { s.setStage r.id none with batches := s.batches ++ [(r.id, d)] } := by
  have hpub := published_of_all hall
  obtain ⟨batch, hload, -⟩ := load_published hpub hfits
  refine ⟨fun id _ => ?_, fun id d' hd' => ?_, fun p hp pid _ => ?_, fun p hp => ?_⟩
  · by_cases hid : id = r.id
    · rw [hid]
      exact Function.update_self ..
    · exact (Function.update_of_ne hid _ _).trans (h.stages id hid)
  · by_cases hid : id = r.id
    · subst hid
      have hgone : Function.update s.stages r.id none r.id = some d' := hd'
      rw [Function.update_self] at hgone
      cases hgone
    · exact h.fresh id d' ((Function.update_of_ne hid _ _).symm.trans hd')
  · rcases List.mem_append.1 hp with hp | hp
    · exact h.statuses p hp pid fun h => h
    · rw [List.mem_singleton.1 hp]
      exact h.fresh _ _ hstage pid
  · rcases List.mem_append.1 hp with hp | hp
    · exact h.ready p hp
    · rw [List.mem_singleton.1 hp]
      exact ⟨⟨batch, hload⟩, r, _, rfl, hpub, hfits, .new⟩

/-- What an operation leaves, up to the place it leads to. -/
theorem LedgerDir.Moves.tidy {pid : Nat} {call : LedgerCall} {op op' : LedgerOp}
    (hmove : s.Moves size pid op s' op') (h : LedgerAt.AtClean size ⟨pid, call, op⟩ s l)
    (hmay : LedgerAt.mayStep size ⟨pid, call, op⟩) :
    s'.Tidy size (LedgerAt.Stages ⟨pid, call, op'⟩) (LedgerAt.Replaces ⟨pid, call, op'⟩) := by
  obtain ⟨⟨hgood, hplace⟩, htidy, haccepts, hgoing⟩ := h
  cases hmove with
  | look | enter => exact htidy
  | mkdir => exact htidy.setStage (fun _ _ h => h) fun _ => rfl
  | taken hstage => exact (hstage (htidy.stages _ fun h => h)).elim
  | create =>
    obtain ⟨hcall, hfree, d, written, hstage, hall, hhas⟩ := hplace
    exact htidy.put hstage
  | @fill r f rest =>
    obtain ⟨hcall, hfree, d, written, hstage, hall, hhas⟩ := hplace
    exact nextFile_tidy (b := ⟨pid, call, .fill r f rest⟩) (htidy.put hstage)
  | publish hstage =>
    obtain ⟨hcall, hfree, d, hstage', hall⟩ := hplace
    cases hstage.symm.trans hstage'
    exact htidy.publish hstage hall hmay
  | gone hstage =>
    obtain ⟨hcall, hfree, d, hstage', hall⟩ := hplace
    cases hstage.symm.trans hstage'
  | clean => exact (hgoing trivial).elim
  | stage hfind =>
    have hmem := find?_mem hfind
    refine htidy.set (fun pid' hpid => ?_) (fun _ _ _ h => h.elim) (htidy.ready _ hmem).setStages
    have hne : pid' ≠ pid := fun heq => hpid ⟨rfl, heq⟩
    exact (Function.update_of_ne hne _ _).trans (htidy.statuses _ hmem pid' fun h => h)
  | fillStage hfind =>
    have hmem := find?_mem hfind
    refine htidy.set (fun pid' hpid => ?_) (fun _ _ _ h => h) (htidy.ready _ hmem).setStages
    have hne : pid' ≠ pid := fun heq => hpid ⟨rfl, heq⟩
    exact (Function.update_of_ne hne _ _).trans (htidy.statuses _ hmem pid' hpid)
  | @rename id t d hfind =>
    obtain ⟨hcall, d', f, ⟨hfind', old, hold, hallowed, rfl⟩, hstaged⟩ := hplace
    cases hfind.symm.trans hfind'
    have hmem := find?_mem hfind
    have hready : BatchDir.Ready size id { d with
        status := some (.whole (t.apply old)), stages := Function.update d.stages pid none } :=
      (htidy.ready _ hmem).apply hold (haccepts id t hcall) hallowed
    dsimp only at hstaged
    rw [← hstaged] at hready
    refine htidy.set (fun pid' _ => ?_) (fun _ _ hne h => (hne h.1).elim) hready
    by_cases hpid : pid' = pid
    · rw [hpid]
      exact Function.update_self ..
    · exact (Function.update_of_ne hpid _ _).trans
        (htidy.statuses _ hmem pid' fun h => hpid h.2)

/-- Nothing has to be cleaned up: no directory and no stage is in the way. -/
theorem LedgerDir.Moves.not_cleans {pid : Nat} {call : LedgerCall} {op op' : LedgerOp}
    (hmove : s.Moves size pid op s' op') (h : LedgerAt.AtClean size ⟨pid, call, op⟩ s l) :
    ¬ LedgerAt.Cleans ⟨pid, call, op'⟩ := by
  obtain ⟨⟨hgood, hplace⟩, htidy, haccepts, hgoing⟩ := h
  cases hmove with
  | taken hstage => exact (hstage (htidy.stages _ fun h => h)).elim
  | gone hstage =>
    obtain ⟨hcall, hfree, d, hstage', hall⟩ := hplace
    cases hstage.symm.trans hstage'
  | clean => exact (hgoing trivial).elim
  | @fill r f rest => cases rest <;> exact fun h => h
  | look | mkdir | create | publish | enter | stage | fillStage | rename => exact fun h => h

theorem LedgerAt.AtClean.go (h : b.AtClean size s l) (hmay : b.mayStep size)
    (hstep : b.step size s = (s', .go b')) : b'.AtClean size s' l := by
  have hat := h.place.go hstep
  obtain ⟨⟨hpid, hcall⟩, hmove⟩ := LedgerAt.step_go hstep
  obtain ⟨pid, call, op⟩ := b
  obtain ⟨pid', call', op'⟩ := b'
  cases hpid
  cases hcall
  exact ⟨hat, hmove.tidy h hmay, h.accepts, hmove.not_cleans h⟩

/-- The last operation of a call changes no file. -/
theorem LedgerAt.AtClean.done {r : LedgerResult} (h : b.AtClean size s l)
    (hstep : b.step size s = (s', .done r)) : s'.Clean size := by
  obtain ⟨pid, call, op⟩ := b
  obtain ⟨⟨hgood, hplace⟩, htidy, haccepts, hgoing⟩ := h
  unfold LedgerAt.step at hstep
  cases op with
  | look r₀ =>
    obtain ⟨rfl, -⟩ := Prod.mk.inj hstep
    exact htidy
  | published r₀ | renamed id t =>
    cases hstep
    exact htidy
  | clean r₀ e => exact (hgoing trivial).elim
  | create r₀ f rest | fill r₀ f rest => cases hstep
  | mkdir r₀ | publish r₀ =>
    dsimp only at hstep
    split at hstep <;> cases hstep
  | check id t turn =>
    dsimp only at hstep
    split at hstep
    · cases hstep
      exact htidy
    · split at hstep <;> cases hstep
      exact htidy
  | enter id t =>
    dsimp only at hstep
    split at hstep
    · cases hstep
      exact htidy
    · split at hstep <;> cases hstep
      exact htidy
    · cases hstep
      exact htidy
  | stage id t f =>
    dsimp only at hstep
    split at hstep
    · split at hstep <;> cases hstep
      exact htidy
    · cases hstep
      exact htidy
  | fillStage id t f =>
    obtain ⟨-, d, hfind, -⟩ := hplace
    dsimp only at hstep
    rw [hfind] at hstep
    cases hstep
  | rename id t =>
    obtain ⟨-, d, f, hd, -⟩ := hplace
    dsimp only at hstep
    rw [hd.1] at hstep
    cases hstep

/-- The ledger while nothing is left over. -/
def tidyRule (size : Attachment → Nat) (π : Type) : Rule π (ledger size) where
  waits b := (ledgerRule size π).waits b ∧ ∀ id t, b.call = .transition id t → t.accepts
  quiet s l := s.Good l ∧ s.Clean size
  inside b s l := b.AtClean size s l
  mayCrash b _ := b.mayCrash
  mayStep b _ := b.mayStep size
  start call := ⟨(ledgerRule size π).start call, call.accepted⟩
  enter := by
    rintro b s l ⟨hwaits, haccepts⟩ ⟨hgood, hclean⟩
    have hat : b.At s l := (ledgerRule size π).enter hwaits hgood
    obtain ⟨pid, call, op⟩ := b
    rcases hwaits with ⟨r, hcall, rfl⟩ | ⟨id, t, hcall, rfl | ⟨turn, rfl⟩⟩
    · exact ⟨hat, hclean, haccepts, fun h => h⟩
    · exact ⟨hat, hclean, haccepts, fun h => h⟩
    · exact ⟨hat, hclean, haccepts, fun h => h⟩
  crash := by
    rintro ⟨pid, call, op⟩ s l ⟨hat, htidy, -, -⟩ hmay
    refine ⟨hat.1, ?_⟩
    cases op with
    | create | fill | publish | fillStage | rename => exact hmay.elim
    | look | mkdir | published | clean | check | enter | stage | renamed => exact htidy
  go h hmay hstep := h.go hmay hstep
  yield {b s l s' b'} h _ hstep := by
    obtain ⟨rfl, hsame, id, t, turn, hcall, hop, hop'⟩ := h.place.yield hstep
    refine ⟨⟨h.place.1, ?_⟩, .inr ⟨id, t, hsame.trans hcall, .inl hop'⟩, ?_⟩
    · obtain ⟨pid, call, op⟩ := b
      cases hop
      exact h.tidy
    · rw [hsame]
      exact h.accepts
  done h _ hstep p := ⟨h.place.done hstep p, h.done hstep⟩

/-! ## A call by a fresh process -/

/-- The transition is one that the ledger allows for a batch of this status. -/
structure Transition.Allows (t : Transition) (f : StatusFile) : Prop where
  accepts : t.accepts
  state : f.state ∈ t.allowed
  turn : ∀ turn, t.checkedTurn = some turn → f.nativeTurnId = none ∨ f.nativeTurnId = some turn

/-- The batch of the request is there, or its slot is free. -/
def LedgerDir.Open (s : LedgerDir) (r : Request) : Prop :=
  (∃ d, (r.id, d) ∈ s.batches ∧ d.source = some (.whole r.sourceFile)) ∨ s.Free r

/-- Whatever process it is, its first call of `prepare_and_claim` returns the batch, and so does
every transition that is allowed. -/
structure LedgerDir.Usable (size : Attachment → Nat) (s : LedgerDir) : Prop where
  prepares : ∀ r : Request, r.Fits size → s.Open r → ∀ pid, ∃ s' batch,
    batch.deliveryId = r.id ∧
      (ledger size).Returns (.begin pid (.prepare r)) s s' (.prepare r, .ok batch)
  transitions : ∀ p ∈ s.batches, ∃ f, p.2.status = some (.whole f) ∧
    ∀ t : Transition, t.Allows f → ∀ pid, ∃ s' batch, batch.status = t.state ∧
      (ledger size).Returns (.begin pid (.transition p.1 t)) s s' (.transition p.1 t, .ok batch)

theorem load_fields {id : Text} {d : BatchDir} {batch : Batch} (h : d.load size id = .ok batch) :
    batch.deliveryId = id ∧
      (∀ source, d.source = some (.whole source) → batch.sourceEvents = source.events) ∧
      ∀ f, d.status = some (.whole f) → batch.status = f.state ∧
        batch.nativeTurnId = f.nativeTurnId := by
  unfold BatchDir.load at h
  simp only [bind_ok_iff, stableJson_ok, require_ok] at h
  obtain ⟨intent, -, claim, -, status, ⟨hstatus, -⟩, source, ⟨hsource, -⟩, owner, -, -, -, -, -,
    -, -, -, -, -, -, -, -, -, -, -, -, hbatch⟩ := h
  cases hbatch
  refine ⟨rfl, fun source' hsource' => ?_, fun f hf => ?_⟩
  · rw [hsource] at hsource'
    cases hsource'
    rfl
  · rw [hstatus] at hf
    cases hf
    exact ⟨rfl, rfl⟩

/-- What is ready is loaded. -/
theorem load_ready {id : Text} {d : BatchDir} (hgood : s.Good l) (hmem : (id, d) ∈ s.batches)
    (hready : d.Ready size id) :
    ∃ batch, s.load size id = .ok batch ∧ d.load size id = .ok batch := by
  obtain ⟨⟨batch, hload⟩, r, f, rfl, -⟩ := hready
  refine ⟨batch, ?_, hload⟩
  unfold LedgerDir.load
  rw [require_pos r.id_safe, ok_bind, find?_of_mem hgood.nodup hmem, expect_some, ok_bind, hload]

theorem scan_free {r : Request} {batches : List (Text × BatchDir)} (hgood : s.Good l)
    (hclean : s.Clean size) (hfree : s.Free r) (hsub : ∀ p ∈ batches, p ∈ s.batches) :
    s.scan size r.thread batches = .ok () := by
  induction batches with
  | nil => rfl
  | cons p batches ih =>
    obtain ⟨id, d⟩ := p
    have hmem := hsub _ List.mem_cons_self
    obtain ⟨batch, hload, hd⟩ := load_ready hgood hmem (hclean.ready _ hmem)
    obtain ⟨hstate, hthread⟩ := load_ok hd
    have hblocks : ¬ (batch.controllerThreadId = r.thread ∧ batch.status.blocks) :=
      fun ⟨heq, hblocking⟩ => hfree.free _ hmem ⟨_, hstate, hblocking⟩
        (hthread.trans (congrArg some heq))
    rw [LedgerDir.scan, hload, ok_bind, if_neg hblocks]
    exact ih fun p hp => hsub p (List.mem_cons_of_mem _ hp)

theorem returns_publish {pid : Nat} {r : Request}
    (h : LedgerAt.AtClean size ⟨pid, .prepare r, .publish r⟩ s l) (hfits : r.Fits size) :
    ∃ s' batch, batch.deliveryId = r.id ∧
      (ledger size).Returns ⟨pid, .prepare r, .publish r⟩ s s' (.prepare r, .ok batch) := by
  obtain ⟨-, hfree, d, hstage, hall⟩ := h.place.2
  have hstep : LedgerAt.step size ⟨pid, .prepare r, .publish r⟩ s =
      ({ s.setStage r.id none with batches := s.batches ++ [(r.id, d)] },
        .go ⟨pid, .prepare r, .published r⟩) := by
    simp only [LedgerAt.step, hstage]
    rfl
  have hnext := h.go hfits hstep
  have hmem : (r.id, d) ∈ s.batches ++ [(r.id, d)] :=
    List.mem_append_right _ (List.mem_singleton_self _)
  obtain ⟨batch, hload, hd⟩ := load_ready hnext.place.1 hmem (hnext.tidy.ready _ hmem)
  have hdone : (ledger size).Returns ⟨pid, .prepare r, .published r⟩
      { s.setStage r.id none with batches := s.batches ++ [(r.id, d)] }
      { s.setStage r.id none with batches := s.batches ++ [(r.id, d)] }
      (.prepare r, .ok batch) :=
    (Sections.returns_done rfl).2 ⟨rfl, congrArg (Prod.mk _) hload⟩
  exact ⟨_, batch, (load_fields hd).1, (Sections.returns_go hstep).2 hdone⟩

theorem returns_files {pid : Nat} {r : Request} {rest : List BatchFile}
    (h : LedgerAt.AtClean size ⟨pid, .prepare r, LedgerAt.nextFile r rest⟩ s l)
    (hfits : r.Fits size) : ∃ s' batch, batch.deliveryId = r.id ∧
      (ledger size).Returns ⟨pid, .prepare r, LedgerAt.nextFile r rest⟩ s s'
        (.prepare r, .ok batch) := by
  induction rest generalizing s with
  | nil => exact returns_publish h hfits
  | cons f rest ih =>
    have hcreate (s₁ : LedgerDir) : LedgerAt.step size ⟨pid, .prepare r, .create r f rest⟩ s₁ =
        (s₁.setStage r.id ((s₁.stages r.id).map (·.put r false f)),
          .go ⟨pid, .prepare r, .fill r f rest⟩) := rfl
    have hfill (s₁ : LedgerDir) : LedgerAt.step size ⟨pid, .prepare r, .fill r f rest⟩ s₁ =
        (s₁.setStage r.id ((s₁.stages r.id).map (·.put r true f)),
          .go ⟨pid, .prepare r, LedgerAt.nextFile r rest⟩) := rfl
    have hat : LedgerAt.AtClean size ⟨pid, .prepare r, .create r f rest⟩ s l := h
    obtain ⟨s', batch, hid, hreturns⟩ := ih ((hat.go trivial (hcreate s)).go trivial (hfill _))
    exact ⟨s', batch, hid, (Sections.returns_go (hcreate s)).2
      ((Sections.returns_go (hfill _)).2 hreturns)⟩

theorem clean_prepares {r : Request} (hgood : s.Good l) (hclean : s.Clean size)
    (hfits : r.Fits size) (hopen : s.Open r) (pid : Nat) :
    ∃ s' batch, batch.deliveryId = r.id ∧
      (ledger size).Returns (.begin pid (.prepare r)) s s' (.prepare r, .ok batch) := by
  rcases hopen with ⟨d, hmem, hsource⟩ | hfree
  · obtain ⟨batch, hload, hd⟩ := load_ready hgood hmem (hclean.ready _ hmem)
    obtain ⟨hid, hevents, -⟩ := load_fields hd
    have hsame : batch.sourceEvents = r.source := hevents _ hsource
    have hlook : LedgerAt.look size ⟨pid, .prepare r, .look r⟩ s r =
        .done (.prepare r, .ok batch) := by
      unfold LedgerAt.look
      rw [find?_of_mem hgood.nodup hmem, if_pos (Option.isSome_some ..), hload, ok_bind,
        require_pos hsame]
      rfl
    exact ⟨s, batch, hid, (Sections.returns_done (congrArg (Prod.mk s) hlook)).2 ⟨rfl, rfl⟩⟩
  · have hunseen : ¬ (s.find? r.id).isSome = true := by
      intro hsome
      obtain ⟨d, hd⟩ := Option.isSome_iff_exists.1 hsome
      exact hfree.unseen d (find?_mem hd)
    have hlook : LedgerAt.look size ⟨pid, .prepare r, .look r⟩ s r =
        .go ⟨pid, .prepare r, .mkdir r⟩ := by
      unfold LedgerAt.look
      rw [if_neg hunseen, scan_free hgood hclean hfree fun p hp => hp]
      rfl
    have hmkdir : LedgerAt.step size ⟨pid, .prepare r, .mkdir r⟩ s =
        (s.setStage r.id (some {}),
          .go ⟨pid, .prepare r, LedgerAt.nextFile r BatchFile.all⟩) := by
      simp only [LedgerAt.step, if_pos (hclean.stages r.id fun h => h)]
      rfl
    have hat : LedgerAt.AtClean size ⟨pid, .prepare r, .mkdir r⟩ s l :=
      ⟨⟨hgood, rfl, hfree⟩, hclean, nofun, fun h => h⟩
    obtain ⟨s', batch, hid, hreturns⟩ := returns_files (hat.go trivial hmkdir) hfits
    exact ⟨s', batch, hid, (Sections.returns_go (congrArg (Prod.mk s) hlook)).2
      ((Sections.returns_go hmkdir).2 hreturns)⟩

/-- The text of a status file that has just been created. -/
theorem fill_stage {id : Text} {d : BatchDir} {f : StatusFile} {t : Transition} {pid : Nat}
    (hat : LedgerAt.AtClean size ⟨pid, .transition id t, .stage id t f⟩ s l)
    (hfind : s.find? id = some d)
    (hstage : LedgerAt.step size ⟨pid, .transition id t, .stage id t f⟩ s =
      (s.set id { d with stages := Function.update d.stages pid (some .torn) },
        .go ⟨pid, .transition id t, .fillStage id t f⟩)) :
    ∃ s₂ d₂, LedgerAt.step size ⟨pid, .transition id t, .fillStage id t f⟩
        (s.set id { d with stages := Function.update d.stages pid (some .torn) }) =
        (s₂, .go ⟨pid, .transition id t, .rename id t⟩) ∧
      s₂.find? id = some d₂ ∧ d₂.stages pid = some (.whole f) := by
  have hfind₁ := @find?_set _ _ _ _ _ { d with stages := Function.update d.stages pid (some .torn) }
    hat.place.1 hfind
  have hgood := (hat.go trivial hstage).place.1
  let stages := Function.update (Function.update d.stages pid (some .torn)) pid (some (.whole f))
  refine ⟨_, { d with stages := stages }, ?_, find?_set hgood hfind₁, Function.update_self pid _ _⟩
  simp only [LedgerAt.step, hfind₁]
  rfl

theorem returns_enter {id : Text} {d : BatchDir} {f : StatusFile} {t : Transition}
    (hgood : s.Good l) (hclean : s.Clean size) (hmem : (id, d) ∈ s.batches)
    (hstatus : d.status = some (.whole f)) (ht : t.accepts) (hallowed : f.state ∈ t.allowed)
    (pid : Nat) : ∃ s' batch, batch.status = t.state ∧
      (ledger size).Returns ⟨pid, .transition id t, .enter id t⟩ s s'
        (.transition id t, .ok batch) := by
  have hfind := find?_of_mem hgood.nodup hmem
  obtain ⟨batch, hload, hd⟩ := load_ready hgood hmem (hclean.ready _ hmem)
  have hstate := ((load_fields hd).2.2 f hstatus).1
  have henter : LedgerAt.step size ⟨pid, .transition id t, .enter id t⟩ s =
      (s, .go ⟨pid, .transition id t, .stage id t (t.apply f)⟩) := by
    obtain ⟨owner, binding, intent, claim, source, status, stages⟩ := d
    cases hstatus
    simp only [LedgerAt.step, hload, hfind, if_pos (hstate ▸ hallowed)]
    rfl
  have hat : LedgerAt.AtClean size ⟨pid, .transition id t, .enter id t⟩ s l :=
    ⟨⟨hgood, rfl⟩, hclean, fun _ _ h => (by cases h; exact ht), fun h => h⟩
  have hstage : LedgerAt.step size ⟨pid, .transition id t, .stage id t (t.apply f)⟩ s =
      (s.set id { d with stages := Function.update d.stages pid (some .torn) },
        .go ⟨pid, .transition id t, .fillStage id t (t.apply f)⟩) := by
    simp only [LedgerAt.step, hfind, if_pos (hclean.statuses _ hmem pid fun h => h)]
    rfl
  have hfillAt := (hat.go trivial henter).go trivial hstage
  obtain ⟨s₂, d₂, hfill, hfind₂, hstaged⟩ := fill_stage (hat.go trivial henter) hfind hstage
  have hrename : LedgerAt.step size ⟨pid, .transition id t, .rename id t⟩ s₂ =
      (s₂.set id { d₂ with
          status := some (.whole (t.apply f)), stages := Function.update d₂.stages pid none },
        .go ⟨pid, .transition id t, .renamed id t⟩) := by
    simp only [LedgerAt.step, hfind₂, hstaged]
    rfl
  have hnext := (hfillAt.go trivial hfill).go trivial hrename
  have hmem' := mem_set_self (d := { d₂ with
    status := some (.whole (t.apply f)), stages := Function.update d₂.stages pid none })
    (find?_mem hfind₂)
  obtain ⟨batch', hload', hd'⟩ := load_ready hnext.place.1 hmem' (hnext.tidy.ready _ hmem')
  have hdone : (ledger size).Returns ⟨pid, .transition id t, .renamed id t⟩ (s₂.set id _)
      (s₂.set id _) (.transition id t, .ok batch') :=
    (Sections.returns_done rfl).2 ⟨rfl, congrArg (Prod.mk _) hload'⟩
  exact ⟨_, batch', ((load_fields hd').2.2 _ rfl).1.trans Transition.apply_state,
    (Sections.returns_go henter).2 ((Sections.returns_go hstage).2
      ((Sections.returns_go hfill).2 ((Sections.returns_go hrename).2 hdone)))⟩

theorem clean_transitions {id : Text} {d : BatchDir} {f : StatusFile} {t : Transition}
    (hgood : s.Good l) (hclean : s.Clean size) (hmem : (id, d) ∈ s.batches)
    (hstatus : d.status = some (.whole f)) (ht : t.Allows f) (pid : Nat) :
    ∃ s' batch, batch.status = t.state ∧
      (ledger size).Returns (.begin pid (.transition id t)) s s' (.transition id t, .ok batch) := by
  obtain ⟨s', batch, hstate, hreturns⟩ :=
    returns_enter hgood hclean hmem hstatus ht.accepts ht.state pid
  refine ⟨s', batch, hstate, ?_⟩
  cases hchecked : t.checkedTurn with
  | none =>
    have hbegin : LedgerAt.begin pid (.transition id t) = ⟨pid, .transition id t, .enter id t⟩ := by
      simp only [LedgerAt.begin, hchecked]
    rw [hbegin]
    exact hreturns
  | some turn =>
    have hbegin : LedgerAt.begin pid (.transition id t) =
        ⟨pid, .transition id t, .check id t turn⟩ := by
      simp only [LedgerAt.begin, hchecked]
    -- the turn is compared under the lock, and the lock is taken again for the transition
    obtain ⟨old, hload, hd⟩ := load_ready hgood hmem (hclean.ready _ hmem)
    have hturn := ht.turn turn hchecked
    rw [← ((load_fields hd).2.2 f hstatus).2] at hturn
    have hcheck : LedgerAt.step size ⟨pid, .transition id t, .check id t turn⟩ s =
        (s, .yield ⟨pid, .transition id t, .enter id t⟩) := by
      simp only [LedgerAt.step, hload, if_pos hturn]
    rw [hbegin]
    exact (Sections.returns_yield hcheck).2 hreturns

theorem usable_of_clean (hgood : s.Good l) (hclean : s.Clean size) : s.Usable size where
  prepares r hfits hopen pid := clean_prepares hgood hclean hfits hopen pid
  transitions p hp := by
    obtain ⟨-, r, f, -, hpublished, -⟩ := hclean.ready p hp
    exact ⟨f, hpublished.status, fun t ht pid =>
      clean_transitions hgood hclean hp hpublished.status ht pid⟩

theorem clean_empty : LedgerDir.Clean size {} where
  stages _ _ := rfl
  fresh _ _ hd := by cases hd
  statuses _ hp := by cases hp
  ready _ hp := by cases hp

/-- The act lets no process die between the creation of a stage and its rename, and publishes no
batch that cannot be read. -/
def Leaves (size : Attachment → Nat) (w : Crowd π LedgerDir LedgerAt LedgerResult) :
    Act π LedgerStart → Prop
  | .crash p => ∀ b, w.holder = some (p, b) → b.mayCrash
  | .operate => ∀ p b, w.holder = some (p, b) → b.mayStep size
  | _ => True

/-- As long as no process dies between the creation of a stage and its rename, every call that
comes after a crash returns: the batch of its request, or the batch with its new status. -/
theorem usable_after_crashes [DecidableEq π] (size : Attachment → Nat)
    (acts : List (Act π LedgerStart))
    (hacts : AllSteps (ledger size).next (Leaves size) (.quiet {}) acts) :
    ∀ before, before <+: acts → (run (ledger size).next (.quiet {}) before).holder = none →
      (run (ledger size).next (.quiet {}) before).files.Usable size := by
  rintro before ⟨after, rfl⟩ hholder
  have hallows := hacts.of_append.imp (d := (tidyRule size π).Allows) fun w act h => by
    cases act with
    | call | acquire => trivial
    | operate => exact h
    | crash p => exact h
  have hstart : (tidyRule size π).Holds (.quiet {}) :=
    Rule.holds_quiet _ ⟨good_empty, clean_empty⟩
  obtain ⟨hgood, hclean⟩ := (hstart.run hallows).quiet hholder
  exact usable_of_clean hgood hclean

end

/-! ## Sizes -/

section
variable {r : Request} {f : StatusFile} {v : Value} {s : Text}

theorem fileSize_le : fileSize v ≤ 4 * (canonical v).length + 1 := by
  unfold fileSize
  cases hbytes : encodeUtf8 (canonical v) with
  | none => simp
  | some bytes => exact Nat.succ_le_succ (encodeUtf8_length_le hbytes)

theorem fieldLength_str {name : String} : fieldLength (text name, sortKeys (.str s)) ≤
    6 * (text name).length + 6 * s.length + 6 := by
  have hkey := @quoted_length_le (text name)
  have hvalue : (dumps false (sortKeys (.str s))).length ≤ 6 * s.length + 2 := quoted_length_le
  dsimp only [fieldLength]
  omega

theorem fieldLength_int {name : String} {n : Int} : fieldLength (text name, sortKeys (.int n)) ≤
    6 * (text name).length + (intText n).length + 4 := by
  have hkey := @quoted_length_le (text name)
  have hvalue : (dumps false (sortKeys (.int n))).length = (intText n).length := rfl
  dsimp only [fieldLength]
  omega

theorem fieldLength_le {name : String} : fieldLength (text name, v) ≤
    6 * (text name).length + (dumps false v).length + 4 := by
  have hkey := @quoted_length_le (text name)
  dsimp only [fieldLength]
  omega

/-- What the status of a batch goes on to say. -/
structure StatusFile.Of (r : Request) (f : StatusFile) : Prop where
  head : f.version = 1 ∧ f.deliveryId = r.id ∧ f.controllerThread = r.thread ∧
    f.controllerEpoch = r.epoch ∧ f.revision = 1
  transport : (text f.transportStatus).length ≤ 9
  texts : ∀ field ∈ [f.nativeTurnId, f.uncertainReason, f.historyProofSha256, f.nativeItemId,
    f.controllerAckSha256], ∀ s ∈ field, s.length ≤ 64

theorem isSafe_length (h : isSafe s = true) : s.length ≤ 64 := by
  simp only [isSafe, Bool.and_eq_true, decide_eq_true_eq] at h
  exact h.1.2

theorem isHash_length (h : isHash s = true) : s.length ≤ 64 := by
  simp only [isHash, Bool.and_eq_true, decide_eq_true_eq] at h
  exact Nat.le_of_eq h.1

theorem Request.Becomes.of (h : r.Becomes f) : f.Of r := by
  have hready : (text "ready").length ≤ 9 := by decide
  have haccepted : (text "accepted").length ≤ 9 := by decide
  have huncertain : (text "uncertain").length ≤ 9 := by decide
  have hconfirmed : (text "confirmed").length ≤ 9 := by decide
  induction h with
  | new => exact ⟨⟨rfl, rfl, rfl, rfl, rfl⟩, hready, by simp [Request.statusFile]⟩
  | @apply t f _ haccepts _ ih =>
    have htexts := ih.texts
    simp only [List.mem_cons, List.not_mem_nil, or_false, forall_eq_or_imp, forall_eq] at htexts
    obtain ⟨hturn, hreason, hproof, hitem, hack⟩ := htexts
    cases t with
    | markSending => exact ⟨ih.head, hready, ih.texts⟩
    | markTransportAccepted turn =>
      refine ⟨ih.head, haccepted, ?_⟩
      simpa [Transition.apply] using
        ⟨isSafe_length haccepts, hreason, hproof, hitem, hack⟩
    | markUncertain reason =>
      refine ⟨ih.head, huncertain, ?_⟩
      simpa [Transition.apply] using
        ⟨hturn, isSafe_length haccepts, hproof, hitem, hack⟩
    | confirmHistory proof turn item =>
      refine ⟨ih.head, hconfirmed, ?_⟩
      simpa [Transition.apply] using ⟨isSafe_length haccepts.2.1, hreason,
        isHash_length haccepts.1, isSafe_length haccepts.2.2, hack⟩
    | markControllerAcked ack =>
      refine ⟨ih.head, ih.transport, ?_⟩
      simpa [Transition.apply] using ⟨hturn, hreason, hproof, hitem, isHash_length haccepts⟩

theorem Request.id_length : r.id.length ≤ 42 := by
  have h := r.named
  unfold deliveryIdOf at h
  simp only [bind_ok_iff, expect_ok] at h
  obtain ⟨bytes, -, hid⟩ := h
  rw [← Except.ok.inj hid, List.length_append, List.length_take]
  have htwo : (text "d_").length = 2 := rfl
  omega

theorem Status.name_length (state : Status) : (text state.name).length ≤ 18 := by
  cases state <;> decide

/-- A field that may be missing. -/
theorem optional_length {name : String} {o : Option Text} (ho : ∀ s ∈ o, s.length ≤ 64) :
    ((o.map fun s => field name (.str s)).toList.map
      fun field => fieldLength (field.1, sortKeys field.2)).sum ≤
        6 * (text name).length + 390 := by
  cases o with
  | none => exact Nat.zero_le _
  | some s =>
    have hfield := @fieldLength_str s name
    have hs := ho s rfl
    simp only [Option.map_some, Option.toList_some, List.map_singleton, List.sum_singleton, field]
    omega

/-- A status never becomes too large to be read. -/
theorem Request.Becomes.fits (h : r.Becomes f) (hthread : r.thread.length ≤ 64)
    (hepoch : (intText r.epoch).length ≤ 64) : fileSize f.value ≤ maxJson := by
  obtain ⟨⟨hversion, hid, hcontroller, hnumber, hrevision⟩, htransport, htexts⟩ := h.of
  have hidlength := @Request.id_length r
  have hstate := f.state.name_length
  have hfields : (canonical f.value).length ≤ _ := canonical_dict_length_le
  simp only [List.map_append, List.sum_append, List.map_cons, List.sum_cons, List.map_nil,
    List.sum_nil, field, word, hversion, hid, hcontroller, hnumber, hrevision] at hfields
  have hone : (intText 1).length = 1 := by simp [intText, natText]
  have hlengths : [(text "version").length, (text "delivery_id").length,
      (text "controller_thread").length, (text "controller_epoch").length,
      (text "revision").length, (text "state").length, (text "transport_status").length] =
      [7, 11, 17, 16, 8, 5, 16] := by decide
  have hoptional : [(text "native_turn_id").length, (text "uncertain_reason").length,
      (text "history_proof_sha256").length, (text "native_item_id").length,
      (text "controller_ack_sha256").length] = [14, 16, 20, 14, 21] := by decide
  simp only [List.cons.injEq, and_true] at hlengths hoptional
  simp only [List.mem_cons, List.not_mem_nil, or_false, forall_eq_or_imp, forall_eq] at htexts
  have hv := @fieldLength_int "version" 1
  have hd := @fieldLength_str r.id "delivery_id"
  have ht := @fieldLength_str r.thread "controller_thread"
  have he := @fieldLength_int "controller_epoch" r.epoch
  have hr := @fieldLength_int "revision" 1
  have hs := @fieldLength_str (text f.state.name) "state"
  have hw := @fieldLength_str (text f.transportStatus) "transport_status"
  have hturn := @optional_length "native_turn_id" _ htexts.1
  have hreason := @optional_length "uncertain_reason" _ htexts.2.1
  have hproof := @optional_length "history_proof_sha256" _ htexts.2.2.1
  have hitem := @optional_length "native_item_id" _ htexts.2.2.2.1
  have hack := @optional_length "controller_ack_sha256" _ htexts.2.2.2.2
  simp only [field] at hturn hreason hproof hitem hack
  have hsize := @fileSize_le f.value
  unfold maxJson
  omega

theorem Request.intent_fits (hthread : r.thread.length ≤ 64)
    (hepoch : (intText r.epoch).length ≤ 64)
    (hnative : (dumps false (sortKeys (.list (r.native.map NativeEvent.value)))).length ≤ 16384) :
    fileSize r.intent.value ≤ maxJson := by
  have hid := @Request.id_length r
  have hfields : (canonical r.intent.value).length ≤ _ := canonical_dict_length_le
  simp only [List.map_cons, List.sum_cons, List.map_nil, List.sum_nil, field] at hfields
  have hone : (intText 1).length = 1 := by simp [intText, natText]
  have hlengths : [(text "version").length, (text "delivery_id").length, (text "nonce").length,
      (text "controller_thread").length, (text "controller_epoch").length,
      (text "revision").length, (text "state").length, (text "events").length,
      (text "payload_hash").length, (text "prepared").length] =
      [7, 11, 5, 17, 16, 8, 5, 6, 12, 8] := by decide
  simp only [List.cons.injEq, and_true] at hlengths
  have hhash : r.intent.payloadHash.length = 64 := sha256Hex_length
  have hversion := @fieldLength_int "version" 1
  have hdelivery := @fieldLength_str r.id "delivery_id"
  have hnonce := @fieldLength_str r.id "nonce"
  have hcontroller := @fieldLength_str r.thread "controller_thread"
  have hnumber := @fieldLength_int "controller_epoch" r.epoch
  have hrevision := @fieldLength_int "revision" 1
  have hstate := @fieldLength_str (text "prepared") "state"
  have hevents := @fieldLength_le (sortKeys (.list (r.native.map NativeEvent.value))) "events"
  have hpayload := @fieldLength_str r.intent.payloadHash "payload_hash"
  have hsize := @fileSize_le r.intent.value
  simp only [Request.intent] at hfields hhash hpayload hsize ⊢
  unfold maxJson
  omega

theorem Request.claim_fits (hthread : r.thread.length ≤ 64)
    (hepoch : (intText r.epoch).length ≤ 64) : fileSize r.claim.value ≤ maxJson := by
  have hid := @Request.id_length r
  have hfields : (canonical r.claim.value).length ≤ _ := canonical_dict_length_le
  simp only [List.map_cons, List.sum_cons, List.map_nil, List.sum_nil, field, Request.claim]
    at hfields
  have hone : (intText 1).length = 1 := by simp [intText, natText]
  have hlengths : [(text "version").length, (text "status").length, (text "delivery_id").length,
      (text "controller_thread").length, (text "controller_epoch").length,
      (text "revision").length, (text "intent_sha256").length, (text "claimed").length] =
      [7, 6, 11, 17, 16, 8, 13, 7] := by decide
  simp only [List.cons.injEq, and_true] at hlengths
  have hhash : (hashOf r.intent.value).length = 64 := sha256Hex_length
  have hversion := @fieldLength_int "version" 1
  have hstatus := @fieldLength_str (text "claimed") "status"
  have hdelivery := @fieldLength_str r.id "delivery_id"
  have hcontroller := @fieldLength_str r.thread "controller_thread"
  have hnumber := @fieldLength_int "controller_epoch" r.epoch
  have hrevision := @fieldLength_int "revision" 1
  have hintent := @fieldLength_str (hashOf r.intent.value) "intent_sha256"
  have hsize := @fileSize_le r.claim.value
  simp only [Request.claim] at hsize ⊢
  unfold maxJson
  omega

end

/-! ## A call that prepares a batch -/

section
variable {π : Type} [DecidableEq π] {size : Attachment → Nat} {r : Request} {pid : Nat} {p : π}
  {rest : List BatchFile} {w : Crowd π LedgerDir LedgerAt LedgerResult}

/-- The holder is at an operation of the call that prepares the request, with its directory
there. -/
structure Fills (r : Request) (pid : Nat) (p : π) (op : LedgerOp)
    (w : Crowd π LedgerDir LedgerAt LedgerResult) : Prop where
  holder : w.holder = some (p, ⟨pid, .prepare r, op⟩)
  stage : ∃ d, w.files.stages r.id = some d

theorem Fills.file (size : Attachment → Nat) {f : BatchFile}
    (h : Fills r pid p (.create r f rest) w) :
    Fills r pid p (LedgerAt.nextFile r rest)
      (run (ledger size).next w [.operate, .operate]) := by
  obtain ⟨hw, d, hd⟩ := h
  constructor
  · simp [run, Sections.next, hw, Sections.operate, ledger, LedgerAt.step, LedgerAt.go]
  · simp [run, Sections.next, hw, Sections.operate, ledger, LedgerAt.step, LedgerAt.go,
      LedgerDir.setStage, hd]

theorem Fills.published (size : Attachment → Nat) (h : Fills r pid p (.publish r) w) :
    ((ledger size).next w .operate).holder = some (p, ⟨pid, .prepare r, .published r⟩) := by
  obtain ⟨hw, d, hd⟩ := h
  simp [Sections.next, hw, Sections.operate, ledger, LedgerAt.step, LedgerAt.go, hd]

omit [DecidableEq π] in
theorem Fills.leaves {op : LedgerOp} (h : Fills r pid p op w) (hop : ∀ r', op ≠ .publish r') :
    Leaves size w .operate := by
  rintro q b hb
  cases h.holder.symm.trans hb
  cases op <;> first | trivial | exact absurd rfl (hop _)

theorem Fills.files (size : Attachment → Nat) (h : Fills r pid p (LedgerAt.nextFile r rest) w) :
    Fills r pid p (.publish r)
        (run (ledger size).next w (List.replicate (2 * rest.length) .operate)) ∧
      AllSteps (ledger size).next (Leaves size) w
        (List.replicate (2 * rest.length) .operate) := by
  induction rest generalizing w with
  | nil => exact ⟨h, trivial⟩
  | cons f rest ih =>
    have htwo : List.replicate (2 * (f :: rest).length) (Act.operate : Act π LedgerStart) =
        [Act.operate, .operate] ++ List.replicate (2 * rest.length) Act.operate := rfl
    have h : Fills r pid p (.create r f rest) w := h
    obtain ⟨hfilled, hleaves⟩ := ih (h.file size)
    rw [htwo, run_append]
    refine ⟨hfilled, AllSteps.append ⟨h.leaves (fun _ hop => by cases hop), ?_, trivial⟩
      hleaves⟩
    rintro q b hb
    simp [Sections.next, h.holder, Sections.operate, ledger, LedgerAt.step, LedgerAt.go] at hb
    rw [← hb.2]
    trivial

end

/-! ## A crash after the directory is there -/

def toyRow : Row := ⟨1, text "t", text "e", text "a", text "result", 1, 1, List.replicate 64 0x30⟩

theorem toy_accepted : (requestOf toyAttachment (text "t") [toyRow]).toOption.isSome = true := by
  decide +kernel

def toyRequest : Request := (requestOf toyAttachment (text "t") [toyRow]).toOption.get toy_accepted

/-- The acts that lead to the creation of the directory. -/
def beforeMkdir (r : Request) : List (Act Nat LedgerStart) :=
  [.call 0 ⟨100, .prepare r, nofun⟩, .acquire 0, .operate]

theorem requestOf_eq {attachment : Attachment} {taskId : Text} {rows : List Row} {r : Request}
    (h : requestOf attachment taskId rows = .ok r) :
    r.attachment = attachment ∧ r.taskId = taskId ∧
      projectEvents taskId rows = .ok (r.native, r.source) := by
  unfold requestOf at h
  split at h
  · cases h
  · rename_i hprojected
    split at h
    · cases h
    · cases h
      exact ⟨rfl, rfl, hprojected⟩

theorem toyRequest_eq : requestOf toyAttachment (text "t") [toyRow] = .ok toyRequest :=
  toOption_eq_some.mp (Option.some_get toy_accepted).symm

theorem toyEvents_small : ∃ native source,
    projectEvents (text "t") [toyRow] = .ok (native, source) ∧
    (dumps false (sortKeys (.list (native.map NativeEvent.value)))).length ≤ 16384 ∧
    fileSize (SourceFile.value ⟨1, text "t", source⟩) ≤ maxJson := by
  have hall : (projectEvents (text "t") [toyRow]).toOption.any (fun p =>
      (dumps false (sortKeys (.list (p.1.map NativeEvent.value)))).length ≤ 16384 &&
      fileSize (SourceFile.value ⟨1, text "t", p.2⟩) ≤ maxJson) = true := by decide +kernel
  cases hevents : projectEvents (text "t") [toyRow] with
  | error e =>
    rw [hevents] at hall
    cases hall
  | ok p =>
    simp only [hevents, Except.toOption, Option.any_some, Bool.and_eq_true,
      decide_eq_true_eq] at hall
    exact ⟨p.1, p.2, rfl, hall⟩

theorem toyRequest_fits : toyRequest.Fits fun _ => 0 := by
  obtain ⟨hattachment, htask, hprojected⟩ := requestOf_eq toyRequest_eq
  obtain ⟨native, source, hevents, hnative, hsource⟩ := toyEvents_small
  obtain ⟨rfl, rfl⟩ := Prod.mk.inj (Except.ok.inj (hevents.symm.trans hprojected))
  have hthread : toyRequest.thread.length ≤ 64 := by
    rw [Request.thread, hattachment]
    decide
  have hepoch : (intText toyRequest.epoch).length ≤ 64 := by
    rw [Request.epoch, hattachment]
    simp [toyAttachment, intText, natText]
  refine ⟨Nat.zero_le _, Request.intent_fits hthread hepoch hnative,
    Request.claim_fits hthread hepoch, ?_, fun _ hf => hf.fits hthread hepoch⟩
  rw [Request.sourceFile, htask]
  exact hsource

/-- The acts of a call that prepares a batch, up to the rename of its directory. -/
def untilRename (r : Request) : List (Act Nat LedgerStart) :=
  beforeMkdir r ++ [Act.operate] ++ List.replicate (2 * BatchFile.all.length) Act.operate ++
    [Act.operate]

theorem untilRename_leaves {size : Attachment → Nat} {r : Request} (hfits : r.Fits size) :
    (run (ledger size).next (.quiet {}) (untilRename r)).holder =
        some (0, ⟨100, .prepare r, .published r⟩) ∧
      AllSteps (ledger size).next (Leaves size) (.quiet {}) (untilRename r) := by
  have hmkdir : Fills r 100 0 (LedgerAt.nextFile r BatchFile.all)
      (run (ledger size).next (.quiet {}) (beforeMkdir r ++ [Act.operate])) :=
    ⟨rfl, {}, by simp [run, beforeMkdir, Sections.next, Sections.operate, ledger, LedgerAt.step,
      LedgerAt.begin, LedgerAt.look, LedgerAt.go, LedgerDir.setStage, LedgerDir.find?,
      LedgerDir.scan, Crowd.quiet]⟩
  have hfirst : AllSteps (ledger size).next (Leaves size) (.quiet {})
      (beforeMkdir r ++ [Act.operate]) := by
    refine ⟨trivial, trivial, ?_, ?_, trivial⟩
    · rintro p b h
      cases h
      trivial
    · rintro p b h
      cases h
      trivial
  obtain ⟨hfilled, hfiles⟩ := hmkdir.files size
  rw [untilRename, run_append, run_append]
  constructor
  · exact hfilled.published size
  · refine AllSteps.append (AllSteps.append hfirst hfiles) ⟨?_, trivial⟩
    rw [run_append]
    rintro p b h
    cases hfilled.holder.symm.trans h
    exact hfits

/-- A process that dies when the directory has its name leaves the ledger usable. -/
theorem toy_usable_after_crash :
    (run (ledger fun _ => 0).next (.quiet {})
      (untilRename toyRequest ++ [Act.crash 0])).files.Usable fun _ => 0 := by
  obtain ⟨hholder, hleaves⟩ := untilRename_leaves toyRequest_fits
  have hcrash : Leaves (fun _ => 0)
      (run (ledger fun _ => 0).next (.quiet {}) (untilRename toyRequest)) (.crash 0) := by
    intro b h
    cases hholder.symm.trans h
    trivial
  have hgone : (run (ledger fun _ => 0).next (.quiet {})
      (untilRename toyRequest ++ [Act.crash 0])).holder = none := by
    rw [run_append]
    exact if_pos (congrArg (Option.map Prod.fst) hholder)
  exact usable_after_crashes (fun _ => 0) (untilRename toyRequest ++ [Act.crash 0])
    (hleaves.append ⟨hcrash, trivial⟩) _ (List.prefix_refl _) hgone

/-- With the directory of an earlier call in the way, the next one fails. -/
theorem mkdir_blocks {size : Attachment → Nat} {r : Request} {pid : Nat} {s' : LedgerDir}
    {x : LedgerResult}
    (h : (ledger size).Returns (.begin pid (.prepare r))
      (LedgerDir.setStage {} r.id (some {})) s' x) :
    x = (.prepare r, .error .system) := by
  have hmkdir : LedgerAt.step size ⟨pid, .prepare r, .mkdir r⟩
      (LedgerDir.setStage {} r.id (some {})) =
      (LedgerDir.setStage {} r.id (some {}), .go ⟨pid, .prepare r, .clean r .system⟩) := by
    simp [LedgerAt.step, LedgerDir.setStage, LedgerAt.go]
  have hclean : LedgerAt.step size ⟨pid, .prepare r, .clean r .system⟩
      (LedgerDir.setStage {} r.id (some {})) =
      (LedgerDir.setStage (LedgerDir.setStage {} r.id (some {})) r.id none,
        .done (.prepare r, .error .system)) := by
    simp [LedgerAt.step, LedgerAt.clean, LedgerDir.setStage, LedgerAt.done, BatchDir.unlinkOne]
  have hcall : (ledger size).step (.begin pid (.prepare r)) (LedgerDir.setStage {} r.id (some {})) =
      (LedgerDir.setStage {} r.id (some {}), .go ⟨pid, .prepare r, .mkdir r⟩) := rfl
  rw [Sections.returns_go hcall, Sections.returns_go hmkdir, Sections.returns_done hclean] at h
  exact h.2.symm

theorem afterMkdir_files {size : Attachment → Nat} {r : Request} :
    (run (ledger size).next (.quiet {}) (beforeMkdir r ++ [Act.operate, .crash 0])).files =
      LedgerDir.setStage {} r.id (some {}) :=
  rfl

theorem afterMkdir_holder {size : Attachment → Nat} {r : Request} :
    (run (ledger size).next (.quiet {}) (beforeMkdir r ++ [Act.operate, .crash 0])).holder = none :=
  rfl

/-- A process that dies right after it has made the directory of a batch leaves a ledger in which
the same call fails at first. -/
theorem crash_blocks_request :
    let w := run (ledger fun _ => 0).next (.quiet {})
      (beforeMkdir toyRequest ++ [Act.operate, .crash 0])
    w.holder = none ∧ w.files.Open toyRequest ∧ ∀ pid s' batch,
      ¬ (ledger fun _ => 0).Returns (.begin pid (.prepare toyRequest)) w.files s'
        (.prepare toyRequest, .ok batch) := by
  intro w
  have hfiles : w.files = LedgerDir.setStage {} toyRequest.id (some {}) := afterMkdir_files
  refine ⟨afterMkdir_holder, ?_, fun pid s' batch h => ?_⟩
  · rw [hfiles]
    exact .inr ⟨fun _ hd => (by cases hd), fun _ hp => (by cases hp)⟩
  · rw [hfiles] at h
    cases mkdir_blocks h

end Orchestrator.Bridge
