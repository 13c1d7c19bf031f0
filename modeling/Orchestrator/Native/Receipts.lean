import Mathlib.Logic.Function.Basic
import Orchestrator.Library.Run

/-!
# Receipts of an activation

`_publish_receipt` and `ReceiptStore.read`, one file operation after another, by any number of
processes. A receipt is written under a name of its own, linked to its public name, and unlinked
from the first: until then a reader finds two links, and takes the receipt for not yet published.
-/
namespace Orchestrator.Native.Receipts
open Library

/-- A file. `staged` and `linked` are its two links, under a name of its own (first that of the
stage, then the one in quarantine) and under its public name; `changes` is what `st_ctime_ns`
tells. -/
structure Inode where
  content : List UInt8 := []
  staged : Bool := true
  linked : Bool := false
  changes : Nat := 0
  deriving DecidableEq, Repr

/-- What `identity` reads; the owner and the mode are those of every receipt. -/
structure Identity where
  inode : Nat
  links : Nat
  size : Nat
  changes : Nat
  deriving DecidableEq, Repr

def Inode.identity (ino : Inode) (p : Nat) : Identity where
  inode := p
  links := ino.staged.toNat + ino.linked.toNat
  size := ino.content.length
  changes := ino.changes

/-! ## Publishing -/

/-- The operation of `_publish_receipt` that comes next; `ok` is false once an exception is on
its way. -/
inductive Stage where
  | opening
  | writing
  /-- Everything up to `stage_identity`. -/
  | checking
  | linking
  | validating
  | quarantining (ok : Bool)
  | unlinking (ok : Bool)
  | closing (ok : Bool)
  | done (ok : Bool)
  deriving DecidableEq, Repr

/-- A call of `_publish_receipt` with the text of its value. -/
structure Publication where
  name : String
  data : List UInt8
  stage : Stage := .opening
  deriving DecidableEq, Repr

/-! ## Reading -/

inductive ReadError where
  | unsafeFile | shortRead | changed | replaced
  deriving DecidableEq, Repr

abbrev ReadResult := Except ReadError (Option (List UInt8))

/-- The operation of `read` that comes next, with the file that is open. -/
inductive Reading where
  | stat (p : Nat)
  | chunk (p : Nat) (before : Identity) (raw : List UInt8)
  deriving DecidableEq, Repr

def Reading.file : Reading → Nat
  | .stat p | .chunk p _ _ => p

/-- A call of `read`. -/
structure Call where
  name : String
  reading : Reading
  deriving DecidableEq, Repr

/-- A `ReceiptStore`. -/
structure Reader where
  pendingPublication : Bool := true
  pins : String → Option (Identity × List UInt8) := fun _ => none
  call : Option Call := none

/-- A call of `read` that has returned. -/
structure Returned where
  name : String
  pending : Bool
  result : ReadResult

/-- An activation directory, and whoever works in it. A file is known by the call that has
created it. -/
structure Directory where
  inodes : Nat → Option Inode := fun _ => none
  names : String → Option Nat := fun _ => none
  publications : Nat → Option Publication := fun _ => none
  readers : Nat → Reader := fun _ => {}
  returned : List Returned := []

namespace Directory

inductive Action where
  | publish (p : Nat) (name : String) (data : List UInt8)
  /-- The next operation of a call succeeds or not; a write stops after `written` bytes. -/
  | advance (p : Nat) (ok : Bool) (written : Nat)
  | construct (q : Nat) (pendingPublication : Bool)
  | read (q : Nat) (name : String)
  | proceed (q : Nat)

def setStage (s : Directory) (p : Nat) (pub : Publication) (stage : Stage) : Directory :=
  { s with publications := Function.update s.publications p (some { pub with stage := stage }) }

def setInode (s : Directory) (p : Nat) (ino : Inode) : Directory :=
  { s with inodes := Function.update s.inodes p (some { ino with changes := ino.changes + 1 }) }

/-- An operation of `_publish_receipt`. -/
def publishStep (s : Directory) (p : Nat) (pub : Publication) (ino : Inode) (ok : Bool)
    (written : Nat) : Directory :=
  match pub.stage with
  | .opening =>
    if ok = true then (s.setInode p {}).setStage p pub .writing else s.setStage p pub (.done false)
  | .writing =>
    if ok = true then
      (s.setInode p { ino with content := pub.data.take written }).setStage p pub .checking
    else s.setStage p pub (.done false)
  | .checking =>
    if ok = true ∧ (ino.identity p).links = 1 ∧ ino.content.length = pub.data.length then
      s.setStage p pub .linking
    else s.setStage p pub (.done false)
  | .linking =>
    if ok = true ∧ s.names pub.name = none then
      { (s.setInode p { ino with linked := true }).setStage p pub .validating with
        names := Function.update s.names pub.name (some p) }
    else s.setStage p pub (.quarantining false)
  | .validating =>
    s.setStage p pub (.quarantining (ok && decide (s.names pub.name = some p)))
  | .quarantining sofar =>
    if ok = true then (s.setInode p ino).setStage p pub (.unlinking sofar)
    else s.setStage p pub (.done false)
  | .unlinking sofar =>
    if ok = true then
      (s.setInode p { ino with staged := false }).setStage p pub (.closing sofar)
    else s.setStage p pub (.done false)
  | .closing sofar => s.setStage p pub (.done (sofar && ok))
  | .done _ => s

def maxReceipt : Nat := 4 * 1024 * 1024

def maxChunk : Nat := 65536

def setReader (s : Directory) (q : Nat) (reader : Reader) : Directory :=
  { s with readers := Function.update s.readers q reader }

/-- A call of `read` returns. -/
def answer (s : Directory) (q : Nat) (reader : Reader) (name : String) (result : ReadResult) :
    Directory :=
  { s.setReader q { reader with call := none } with
    returned := s.returned ++ [⟨name, reader.pendingPublication, result⟩] }

/-- `read`, once the file is open. -/
def readStep (s : Directory) (q : Nat) (reader : Reader) (call : Call) (ino : Inode) : Directory :=
  match call.reading with
  | .stat p =>
    let before := ino.identity p
    if reader.pendingPublication = true ∧ before.links = 2 then
      s.answer q reader call.name (.ok none)
    else if before.links = 1 ∧ before.size ≤ maxReceipt then
      s.setReader q { reader with call := some { call with reading := .chunk p before [] } }
    else s.answer q reader call.name (.error .unsafeFile)
  | .chunk p before raw =>
    let left := before.size - raw.length
    let chunk := (ino.content.drop raw.length).take (min left maxChunk)
    if left ≠ 0 then
      if chunk = [] then s.answer q reader call.name (.error .shortRead)
      else s.setReader q
        { reader with call := some { call with reading := .chunk p before (raw ++ chunk) } }
    else if ino.content.length ≠ raw.length ∨ before ≠ ino.identity p then
      s.answer q reader call.name (.error .changed)
    else if (reader.pins call.name).any (fun pin => pin ≠ (before, raw)) = true then
      s.answer q reader call.name (.error .replaced)
    else s.answer q
      { reader with pins := Function.update reader.pins call.name (some (before, raw)) } call.name
      (.ok (some raw))

def step (s : Directory) : Action → Directory
  | .publish p name data =>
    if s.publications p = none then
      { s with publications := Function.update s.publications p (some ⟨name, data, .opening⟩) }
    else s
  | .advance p ok written => match s.publications p with
    | some pub => s.publishStep p pub ((s.inodes p).getD {}) ok written
    | none => s
  | .construct q pendingPublication =>
    s.setReader q { pendingPublication := pendingPublication }
  | .read q name =>
    if (s.readers q).call = none then match s.names name with
      | some p => s.setReader q { s.readers q with call := some ⟨name, .stat p⟩ }
      | none => s.answer q (s.readers q) name (.ok none)
    else s
  | .proceed q => match (s.readers q).call with
    | some call =>
      s.readStep q (s.readers q) call ((s.inodes call.reading.file).getD {})
    | none => s

def run (s : Directory) (actions : List Action) : Directory := Library.run step s actions

theorem run_append (s : Directory) (before after : List Action) :
    s.run (before ++ after) = (s.run before).run after :=
  Library.run_append ..

/-! ## What the files are -/

/-- The file of a call, by the operation that comes next. -/
def Made (pub : Publication) (file : Option Inode) : Prop :=
  match pub.stage with
  | .opening => file = none
  | .writing => ∃ ino, file = some ino ∧ ino.staged = true ∧ ino.linked = false
  | .checking => ∃ ino, file = some ino ∧ ino.staged = true ∧ ino.linked = false ∧
      ino.content <+: pub.data
  | .linking => ∃ ino, file = some ino ∧ ino.staged = true ∧ ino.linked = false ∧
      ino.content = pub.data
  | .validating => ∃ ino, file = some ino ∧ ino.staged = true ∧ ino.linked = true ∧
      ino.content = pub.data
  | .quarantining ok | .unlinking ok => ∃ ino, file = some ino ∧ ino.staged = true ∧
      (ok = true → ino.linked = true) ∧ (ino.linked = true → ino.content = pub.data)
  | .closing ok => ∃ ino, file = some ino ∧ ino.staged = false ∧
      (ok = true → ino.linked = true) ∧ (ino.linked = true → ino.content = pub.data)
  | .done ok => (ok = true → ∃ ino, file = some ino ∧ ino.staged = false ∧ ino.linked = true) ∧
      ∀ ino, file = some ino → ino.linked = true → ino.content = pub.data

structure Files (s : Directory) : Prop where
  made : ∀ p pub, s.publications p = some pub → Made pub (s.inodes p)
  created : ∀ p, s.publications p = none → s.inodes p = none
  named : ∀ name p, s.names name = some p → ∃ pub ino, s.publications p = some pub ∧
    pub.name = name ∧ s.inodes p = some ino ∧ ino.linked = true
  linked : ∀ p pub ino, s.publications p = some pub → s.inodes p = some ino →
    ino.linked = true → s.names pub.name = some p

section Files
variable {s : Directory} {p : Nat} {pub : Publication} {stage : Stage} {ino : Inode}

theorem files_fresh : ({} : Directory).Files :=
  ⟨fun _ _ h => (by cases h), fun _ _ => rfl, fun _ _ h => (by cases h),
    fun _ _ _ h => by cases h⟩

/-- A call goes on with its own file, which may get its name. -/
theorem Files.put (h : s.Files) (hpub : s.publications p = some pub) {file : Option Inode}
    {names : String → Option Nat} (hmade : Made { pub with stage := stage } file)
    (hnames : names = s.names ∨
      s.names pub.name = none ∧ names = Function.update s.names pub.name (some p))
    (hlinked : (∃ ino, file = some ino ∧ ino.linked = true) ↔ names pub.name = some p) :
    ({ s with
      inodes := Function.update s.inodes p file
      publications := Function.update s.publications p (some { pub with stage := stage })
      names := names } : Directory).Files := by
  have hold : ∀ name p', p' ≠ p → (names name = some p' ↔ s.names name = some p') := by
    intro name p' hne
    rcases hnames with rfl | ⟨hnone, rfl⟩
    · exact Iff.rfl
    · by_cases hname : name = pub.name
      · subst hname
        simp [hnone, hne.symm]
      · simp [hname]
  refine ⟨fun p' pub' hp' => ?_, fun p' hp' => ?_, fun name p' hname => ?_,
    fun p' pub' ino' hp' hino' hlink => ?_⟩
  · by_cases hp : p' = p
    · subst hp
      simp only [Function.update_self, Option.some.injEq] at hp' ⊢
      subst hp'
      exact hmade
    · simp only [Function.update_of_ne hp] at hp' ⊢
      exact h.made p' pub' hp'
  · by_cases hp : p' = p
    · subst hp
      simp at hp'
    · simp only [Function.update_of_ne hp] at hp' ⊢
      exact h.created p' hp'
  · by_cases hp : p' = p
    · subst hp
      have hname' : name = pub.name := by
        by_contra hne
        have hs : s.names name = some p' := by
          rcases hnames with rfl | ⟨-, rfl⟩
          · exact hname
          · simpa [hne] using hname
        obtain ⟨pub', ino', hp', hn, -⟩ := h.named name p' hs
        rw [hpub] at hp'
        exact hne (by rw [← hn, Option.some.inj hp'])
      subst hname'
      obtain ⟨ino', hfile, hlink⟩ := hlinked.mpr hname
      exact ⟨{ pub with stage := stage }, ino', by simp, rfl, by simpa using hfile, hlink⟩
    · simp only [Function.update_of_ne hp]
      exact h.named name p' ((hold name p' hp).mp hname)
  · by_cases hp : p' = p
    · subst hp
      simp only [Function.update_self, Option.some.injEq] at hp' hino'
      subst hp'
      exact hlinked.mp ⟨ino', hino', hlink⟩
    · simp only [Function.update_of_ne hp] at hp' hino'
      exact (hold _ p' hp).mpr (h.linked p' pub' ino' hp' hino' hlink)

theorem Files.linked_iff (h : s.Files) (hpub : s.publications p = some pub) :
    (∃ ino, s.inodes p = some ino ∧ ino.linked = true) ↔ s.names pub.name = some p := by
  constructor
  · rintro ⟨ino, hino, hlink⟩
    exact h.linked p pub ino hpub hino hlink
  · intro hname
    obtain ⟨pub', ino, -, -, hino, hlink⟩ := h.named _ p hname
    exact ⟨ino, hino, hlink⟩

theorem Files.setStage (h : s.Files) (hpub : s.publications p = some pub)
    (hmade : Made { pub with stage := stage } (s.inodes p)) : (s.setStage p pub stage).Files := by
  have hput := h.put hpub hmade (.inl rfl) (h.linked_iff hpub)
  rwa [Function.update_eq_self] at hput

theorem Files.setInode (h : s.Files) (hpub : s.publications p = some pub)
    (hmade : Made { pub with stage := stage } (some { ino with changes := ino.changes + 1 }))
    (hlink : ino.linked = true ↔ s.names pub.name = some p) :
    ((s.setInode p ino).setStage p pub stage).Files := by
  refine h.put hpub hmade (.inl rfl) (Iff.trans ?_ hlink)
  constructor
  · rintro ⟨ino', hino', hlink'⟩
    cases hino'
    exact hlink'
  · exact fun hlink' => ⟨_, rfl, hlink'⟩

/-- A call goes on with its file, whose name does not change. -/
theorem Files.rewrite {ino' : Inode} (h : s.Files) (hpub : s.publications p = some pub)
    (hino : s.inodes p = some ino) (hsame : ino'.linked = ino.linked)
    (hmade : Made { pub with stage := stage } (some { ino' with changes := ino'.changes + 1 })) :
    ((s.setInode p ino').setStage p pub stage).Files := by
  refine h.setInode hpub hmade ?_
  rw [← h.linked_iff hpub, hsame]
  simp [hino]

/-- A call that fails has its file, with the whole text if it has been linked. -/
theorem failed_made {name : String} {data : List UInt8} {file : Option Inode}
    (hino : file = some ino) (hdata : ino.linked = true → ino.content = data) :
    Made ⟨name, data, .done false⟩ file := by
  refine ⟨fun h => (by cases h), fun ino' hino' hl' => ?_⟩
  rw [hino] at hino'
  cases hino'
  exact hdata hl'

theorem Files.publishStep (h : s.Files) (hpub : s.publications p = some pub) (ok : Bool)
    (written : Nat) : (s.publishStep p pub ((s.inodes p).getD {}) ok written).Files := by
  have hmade := h.made p pub hpub
  obtain ⟨name, data, stage⟩ := pub
  cases stage with
  | opening =>
    have hnone : s.inodes p = none := hmade
    simp only [Directory.publishStep]
    split
    · refine h.setInode hpub ⟨_, rfl, rfl, rfl⟩ ⟨fun hl => (by cases hl), fun hname => ?_⟩
      obtain ⟨ino, hino, -⟩ := (h.linked_iff hpub).mpr hname
      rw [hnone] at hino
      cases hino
    · exact h.setStage hpub ⟨fun h => (by cases h), fun ino hino => absurd hino (by simp [hnone])⟩
  | writing =>
    obtain ⟨ino, hino, hst, hl⟩ := hmade
    simp only [Directory.publishStep, hino, Option.getD_some]
    split
    · exact h.rewrite hpub hino rfl ⟨_, rfl, hst, hl, List.take_prefix _ _⟩
    · exact h.setStage hpub (failed_made hino fun hl' => absurd hl' (by simp [hl]))
  | checking =>
    obtain ⟨ino, hino, hst, hl, hpre⟩ := hmade
    simp only [Directory.publishStep, hino, Option.getD_some]
    split
    · rename_i hok
      exact h.setStage hpub ⟨ino, hino, hst, hl, hpre.eq_of_length hok.2.2⟩
    · exact h.setStage hpub (failed_made hino fun hl' => absurd hl' (by simp [hl]))
  | linking =>
    obtain ⟨ino, hino, hst, hl, hdata⟩ := hmade
    simp only [Directory.publishStep, hino, Option.getD_some]
    split
    · rename_i hok
      exact h.put hpub ⟨_, rfl, hst, rfl, hdata⟩ (.inr ⟨hok.2, rfl⟩)
        ⟨fun _ => by simp, fun _ => ⟨_, rfl, rfl⟩⟩
    · exact h.setStage hpub ⟨ino, hino, hst, fun h => (by cases h), fun _ => hdata⟩
  | validating =>
    obtain ⟨ino, hino, hst, hl, hdata⟩ := hmade
    exact h.setStage hpub ⟨ino, hino, hst, fun _ => hl, fun _ => hdata⟩
  | quarantining sofar =>
    obtain ⟨ino, hino, hst, hok, hdata⟩ := hmade
    simp only [Directory.publishStep, hino, Option.getD_some]
    split
    · exact h.rewrite hpub hino rfl ⟨_, rfl, hst, hok, hdata⟩
    · exact h.setStage hpub (failed_made hino hdata)
  | unlinking sofar =>
    obtain ⟨ino, hino, hst, hok, hdata⟩ := hmade
    simp only [Directory.publishStep, hino, Option.getD_some]
    split
    · exact h.rewrite hpub hino rfl ⟨_, rfl, rfl, hok, hdata⟩
    · exact h.setStage hpub (failed_made hino hdata)
  | closing sofar =>
    obtain ⟨ino, hino, hst, hok, hdata⟩ := hmade
    refine h.setStage hpub ⟨fun h => ?_, fun ino' hino' hl' => ?_⟩
    · rw [Bool.and_eq_true] at h
      exact ⟨ino, hino, hst, hok h.1⟩
    · rw [hino] at hino'
      cases hino'
      exact hdata hl'
  | done ok => exact h

end Files

/-! ## What readers have seen -/

/-- A published file whose first link is gone; nobody changes it any more. -/
structure Settled (s : Directory) (p : Nat) (ino : Inode) : Prop where
  file : s.inodes p = some ino
  unstaged : ino.staged = false
  linked : ino.linked = true

/-- What is settled stays, and a name that is taken stays with its file. -/
structure Onward (s s' : Directory) : Prop where
  names : ∀ name p, s.names name = some p → s'.names name = some p
  settled : ∀ p ino, s.Settled p ino → s'.Settled p ino

/-- What `read` makes of a settled file. -/
def verdict (data : List UInt8) : ReadResult :=
  if data.length ≤ maxReceipt then .ok (some data) else .error .unsafeFile

/-- What a call of `read` returns, by the state that it returns in. -/
def Fits (s : Directory) (e : Returned) : Prop :=
  (s.names e.name = none ∧ e.result = .ok none) ∨
    ∃ p ino, s.names e.name = some p ∧ s.inodes p = some ino ∧ ino.linked = true ∧
      ((ino.staged = true ∧
          e.result = if e.pending = true then .ok none else .error .unsafeFile) ∨
        (ino.staged = false ∧ e.result = verdict ino.content))

structure Reads (s : Directory) (reader : Reader) : Prop where
  pins : ∀ name id raw, reader.pins name = some (id, raw) → ∃ p ino,
    s.names name = some p ∧ s.Settled p ino ∧ id = ino.identity p ∧ raw = ino.content
  stat : ∀ call p, reader.call = some call → call.reading = .stat p → s.names call.name = some p
  chunk : ∀ call p before raw, reader.call = some call → call.reading = .chunk p before raw →
    s.names call.name = some p ∧ ∃ ino, s.Settled p ino ∧ before = ino.identity p ∧
      raw <+: ino.content ∧ ino.content.length ≤ maxReceipt

section Readers
variable {s s' : Directory} {p : Nat} {pub : Publication} {ino : Inode} {reader : Reader}
  {call : Call} {name : String}

theorem Onward.refl (s : Directory) : s.Onward s := ⟨fun _ _ h => h, fun _ _ h => h⟩

theorem Onward.trans {s'' : Directory} (h : s.Onward s') (h' : s'.Onward s'') : s.Onward s'' :=
  ⟨fun name p hn => h'.names name p (h.names name p hn),
    fun p ino hs => h'.settled p ino (h.settled p ino hs)⟩

theorem Reads.mono (h : s.Reads reader) (ho : s.Onward s') : s'.Reads reader := by
  refine ⟨fun name id raw hpin => ?_, fun call p hcall hstat => ?_,
    fun call p before raw hcall hchunk => ?_⟩
  · obtain ⟨p, ino, hname, hset, hid, hraw⟩ := h.pins name id raw hpin
    exact ⟨p, ino, ho.names name p hname, ho.settled p ino hset, hid, hraw⟩
  · exact ho.names _ p (h.stat call p hcall hstat)
  · obtain ⟨hname, ino, hset, hrest⟩ := h.chunk call p before raw hcall hchunk
    exact ⟨ho.names _ p hname, ino, ho.settled p ino hset, hrest⟩

/-- A settled file is that of a call that has nothing more to do with it. -/
theorem Files.at_rest (h : s.Files) (hpub : s.publications p = some pub) (hs : s.Settled p ino) :
    (∃ ok, pub.stage = .closing ok) ∨ ∃ ok, pub.stage = .done ok := by
  have hmade := h.made p pub hpub
  rw [hs.file] at hmade
  have hnot : ∀ {P : Inode → Prop},
      ¬ ∃ ino', some ino = some ino' ∧ ino'.staged = true ∧ P ino' := by
    rintro P ⟨ino', heq, hst, -⟩
    obtain rfl := Option.some.inj heq
    rw [hs.unstaged] at hst
    cases hst
  obtain ⟨name, data, stage⟩ := pub
  cases stage with
  | opening => cases hmade
  | closing ok => exact .inl ⟨ok, rfl⟩
  | done ok => exact .inr ⟨ok, rfl⟩
  | writing | checking | linking | validating | quarantining | unlinking => exact absurd hmade hnot

theorem publishStep_inodes {ok : Bool} {written p' : Nat} (hne : p' ≠ p) :
    (s.publishStep p pub ino ok written).inodes p' = s.inodes p' := by
  unfold publishStep
  split <;> try split
  all_goals simp [setStage, setInode, hne]

theorem Files.onward (h : s.Files) (hpub : s.publications p = some pub) (ok : Bool)
    (written : Nat) : s.Onward (s.publishStep p pub ((s.inodes p).getD {}) ok written) := by
  refine ⟨fun name p' hname => ?_, fun p' ino hs => ?_⟩
  · unfold Directory.publishStep
    split <;> try split
    all_goals try exact hname
    rename_i hok
    by_cases hn : name = pub.name
    · rw [hn, hok.2] at hname
      cases hname
    · simpa [setStage, setInode, hn] using hname
  · refine ⟨?_, hs.unstaged, hs.linked⟩
    by_cases hp : p' = p
    · subst hp
      rcases h.at_rest hpub hs with ⟨ok', hstage⟩ | ⟨ok', hstage⟩
      · simp only [Directory.publishStep, hstage]
        exact hs.file
      · simp only [Directory.publishStep, hstage]
        exact hs.file
    · rw [publishStep_inodes hp]
      exact hs.file

theorem links_two (hl : ino.linked = true) (hs : ino.staged = true) :
    (ino.identity p).links = 2 := by
  simp [Inode.identity, hl, hs]

theorem links_one (hl : ino.linked = true) (hs : ino.staged = false) :
    (ino.identity p).links = 1 := by
  simp [Inode.identity, hl, hs]

/-- A reader goes on with its call, or returns what fits the files. -/
def Reacts (s : Directory) (q : Nat) (s' : Directory) : Prop :=
  ∃ reader, s.Reads reader ∧ (s' = s.setReader q reader ∨
    ∃ e, s.Fits e ∧ s' = { s.setReader q reader with returned := s.returned ++ [e] })

/-- A reader with no call has only its pins. -/
theorem Reads.idle {pins : String → Option (Identity × List UInt8)}
    (hpins : ∀ name id raw, pins name = some (id, raw) → ∃ p ino,
      s.names name = some p ∧ s.Settled p ino ∧ id = ino.identity p ∧ raw = ino.content) :
    s.Reads { reader with pins := pins, call := none } :=
  ⟨hpins, fun _ _ h => (by cases h), fun _ _ _ _ h => by cases h⟩

/-- A file that is open: it has both its links, and is not read yet, or it is settled. -/
theorem stat_reacts (hf : s.Files) (hr : s.Reads reader)
    (hcall : reader.call = some ⟨name, .stat p⟩) (q : Nat) :
    s.Reacts q (s.readStep q reader ⟨name, .stat p⟩ ((s.inodes p).getD {})) := by
  have hname := hr.stat _ p hcall rfl
  obtain ⟨pub, ino, hpub, -, hino, hlink⟩ := hf.named _ p hname
  simp only [hino, Option.getD_some, readStep]
  split
  · rename_i hpending
    refine ⟨_, .idle hr.pins, .inr ⟨_, .inr ⟨p, ino, hname, hino, hlink, ?_⟩, rfl⟩⟩
    cases hst : ino.staged with
    | true => exact .inl ⟨rfl, by rw [if_pos hpending.1]⟩
    | false =>
      rw [links_one hlink hst] at hpending
      cases hpending.2
  · rename_i hpending
    split
    · rename_i hone
      refine ⟨{ reader with call := some ⟨name, .chunk p (ino.identity p) []⟩ },
        ⟨hr.pins, fun call p' h hstat => ?_, fun call p' before raw h hchunk => ?_⟩, .inl rfl⟩
      · cases h
        cases hstat
      · cases h
        cases hchunk
        refine ⟨hname, ino, ⟨hino, ?_, hlink⟩, rfl, List.nil_prefix, hone.2⟩
        cases hst : ino.staged with
        | false => rfl
        | true =>
          rw [links_two hlink hst] at hone
          cases hone.1
    · rename_i hone
      refine ⟨_, .idle hr.pins, .inr ⟨_, .inr ⟨p, ino, hname, hino, hlink, ?_⟩, rfl⟩⟩
      cases hst : ino.staged with
      | true =>
        refine .inl ⟨rfl, ?_⟩
        rw [if_neg fun hp => hpending ⟨hp, links_two hlink hst⟩]
      | false =>
        have hbig : ¬ ino.content.length ≤ maxReceipt :=
          fun hle => hone ⟨links_one hlink hst, hle⟩
        exact .inr ⟨rfl, by rw [verdict, if_neg hbig]⟩

/-- As long as bytes are left, the next ones are read. -/
theorem chunk_next {raw : List UInt8} (hraw : raw <+: ino.content)
    (hleft : ino.content.length - raw.length ≠ 0) :
    (ino.content.drop raw.length).take (min (ino.content.length - raw.length) maxChunk) ≠ [] ∧
      raw ++ (ino.content.drop raw.length).take
        (min (ino.content.length - raw.length) maxChunk) <+: ino.content := by
  constructor
  · rw [← List.length_pos_iff, List.length_take, List.length_drop]
    have : 0 < maxChunk := by decide
    omega
  · obtain ⟨rest, hrest⟩ := hraw
    rw [← hrest, List.drop_left]
    exact (List.prefix_append_right_inj raw).mpr (List.take_prefix _ _)

/-- A file that is settled does not replace the one that was read under its name. -/
theorem Reads.same_pin (hr : s.Reads reader) (hname : s.names name = some p)
    (hset : s.Settled p ino) :
    ¬ (reader.pins name).any (fun pin => pin ≠ (ino.identity p, ino.content)) = true := by
  cases hpin : reader.pins name with
  | none => simp
  | some pin =>
    obtain ⟨p', ino', hname', hset', hid, hraw'⟩ := hr.pins name pin.1 pin.2 hpin
    obtain rfl := Option.some.inj (hname'.symm.trans hname)
    obtain rfl := Option.some.inj (hset'.file.symm.trans hset.file)
    have hpair : pin = (ino'.identity p', ino'.content) := Prod.ext hid hraw'
    simp [hpair]

theorem chunk_reacts {before : Identity} {raw : List UInt8} (hr : s.Reads reader)
    (hcall : reader.call = some ⟨name, .chunk p before raw⟩) (q : Nat) :
    s.Reacts q (s.readStep q reader ⟨name, .chunk p before raw⟩ ((s.inodes p).getD {})) := by
  obtain ⟨hname, ino, hset, rfl, hraw, hmax⟩ := hr.chunk _ p before raw hcall rfl
  have hsize : (ino.identity p).size = ino.content.length := rfl
  simp only [hset.file, Option.getD_some, readStep, hsize]
  split
  · rename_i hleft
    obtain ⟨hne, hnext⟩ := chunk_next hraw hleft
    rw [if_neg hne]
    refine ⟨{ reader with call := some ⟨name, .chunk p (ino.identity p) (raw ++ _)⟩ },
      ⟨hr.pins, fun call p' h hstat => ?_, fun call p' before raw' h hchunk => ?_⟩, .inl rfl⟩
    · cases h
      cases hstat
    · cases h
      cases hchunk
      exact ⟨hname, ino, hset, rfl, hnext, hmax⟩
  · rename_i hleft
    have hlen := hraw.length_le
    obtain rfl := hraw.eq_of_length (by omega)
    rw [if_neg (by simp), if_neg (hr.same_pin hname hset)]
    refine ⟨_, .idle fun name' id raw' h => ?_, .inr ⟨_, .inr ⟨p, ino, hname, hset.file,
      hset.linked, .inr ⟨hset.unstaged, ?_⟩⟩, rfl⟩⟩
    · by_cases hn : name' = name
      · subst hn
        simp only [Function.update_self, Option.some.injEq, Prod.mk.injEq] at h
        exact ⟨p, ino, hname, hset, h.1.symm, h.2.symm⟩
      · exact hr.pins name' id raw' (by simpa [hn] using h)
    · rw [verdict, if_pos hmax]

theorem readStep_reacts (hf : s.Files) (hr : s.Reads reader) (hcall : reader.call = some call)
    (q : Nat) :
    s.Reacts q (s.readStep q reader call ((s.inodes call.reading.file).getD {})) := by
  obtain ⟨name, reading⟩ := call
  cases reading with
  | stat p => exact stat_reacts hf hr hcall q
  | chunk p before raw => exact chunk_reacts hr hcall q

end Readers

/-! ## Runs -/

structure Sound (s : Directory) : Prop where
  files : s.Files
  reads : ∀ q, s.Reads (s.readers q)

/-- What a step does: it changes the files onward, and at most one call of `read` returns. -/
structure Moves (s s' : Directory) : Prop where
  sound : s'.Sound
  onward : s.Onward s'
  returned : s'.returned = s.returned ∨ ∃ e, s.Fits e ∧ s'.returned = s.returned ++ [e]

section Runs
variable {s : Directory} {actions : List Action} {p : Nat} {ino : Inode} {name : String}

theorem sound_fresh : ({} : Directory).Sound :=
  ⟨files_fresh, fun _ => ⟨fun _ _ _ h => (by cases h), fun _ _ h => (by cases h),
    fun _ _ _ _ h => by cases h⟩⟩

/-- Readers leave the files alone. -/
theorem Sound.setReader (hs : s.Sound) {reader : Reader} (hr : s.Reads reader) (q : Nat)
    {returned : List Returned}
    (hret : returned = s.returned ∨ ∃ e, s.Fits e ∧ returned = s.returned ++ [e]) :
    s.Moves { s.setReader q reader with returned := returned } := by
  have hon : s.Onward { s.setReader q reader with returned := returned } :=
    ⟨fun _ _ h => h, fun _ _ h => ⟨h.file, h.unstaged, h.linked⟩⟩
  refine ⟨⟨⟨hs.files.made, hs.files.created, hs.files.named, hs.files.linked⟩, fun q' => ?_⟩, hon,
    hret⟩
  by_cases hq : q' = q
  · subst hq
    simpa [Directory.setReader] using hr.mono hon
  · simpa [Directory.setReader, hq] using (hs.reads q').mono hon

/-- A call of `_publish_receipt` begins without a file. -/
theorem Sound.publishes {data : List UInt8} (hs : s.Sound) (hnone : s.publications p = none) :
    s.Moves { s with
      publications := Function.update s.publications p (some ⟨name, data, .opening⟩) } := by
  have hon : s.Onward { s with
      publications := Function.update s.publications p (some ⟨name, data, .opening⟩) } :=
    ⟨fun _ _ h => h, fun _ _ h => ⟨h.file, h.unstaged, h.linked⟩⟩
  have hfile := hs.files.created p hnone
  refine ⟨⟨⟨fun p' pub h => ?_, fun p' h => ?_, fun name p' h => ?_,
    fun p' pub ino h hino hl => ?_⟩, fun q => (hs.reads q).mono hon⟩, hon, .inl rfl⟩
  · by_cases hp : p' = p
    · subst hp
      simp only [Function.update_self, Option.some.injEq] at h
      subst h
      exact hfile
    · exact hs.files.made p' pub (by simpa [hp] using h)
  · by_cases hp : p' = p
    · subst hp
      simp at h
    · exact hs.files.created p' (by simpa [hp] using h)
  · obtain ⟨pub, ino, hpub, hn, hino, hl⟩ := hs.files.named name p' h
    have hne : p' ≠ p := fun hp => by
      rw [hp, hnone] at hpub
      cases hpub
    exact ⟨pub, ino, (Function.update_of_ne hne _ _).trans hpub, hn, hino, hl⟩
  · by_cases hp : p' = p
    · subst hp
      rw [hfile] at hino
      cases hino
    · exact hs.files.linked p' pub ino (by simpa [hp] using h) hino hl

theorem Sound.advances {pub : Publication} (hs : s.Sound) (hpub : s.publications p = some pub)
    (ok : Bool) (written : Nat) :
    s.Moves (s.publishStep p pub ((s.inodes p).getD {}) ok written) := by
  have hon := hs.files.onward hpub ok written
  have hreaders : ∀ q, (s.publishStep p pub ((s.inodes p).getD {}) ok written).readers q =
      s.readers q ∧ (s.publishStep p pub ((s.inodes p).getD {}) ok written).returned =
        s.returned := by
    intro q
    unfold publishStep
    split <;> try split
    all_goals exact ⟨rfl, rfl⟩
  refine ⟨⟨hs.files.publishStep hpub ok written, fun q => ?_⟩, hon, .inl (hreaders 0).2⟩
  rw [(hreaders q).1]
  exact (hs.reads q).mono hon

/-- A call of `read` that finds its file open, or finds none. -/
theorem Sound.opens (hs : s.Sound) (q : Nat) (name : String) : s.Moves (s.step (.read q name)) := by
  simp only [step]
  split
  · split
    · rename_i p hname
      have hr : s.Reads { s.readers q with call := some ⟨name, .stat p⟩ } := by
        refine ⟨(hs.reads q).pins, fun call p' h hstat => ?_,
          fun call p' before raw h hchunk => ?_⟩
        · cases h
          cases hstat
          exact hname
        · cases h
          cases hchunk
      exact hs.setReader hr q (.inl rfl)
    · rename_i hname
      exact hs.setReader (Reads.idle (hs.reads q).pins) q (.inr ⟨_, .inl ⟨hname, rfl⟩, rfl⟩)
  · exact ⟨hs, .refl s, .inl rfl⟩

theorem Sound.moves (hs : s.Sound) (a : Action) : s.Moves (s.step a) := by
  have hstay : s.Moves s := ⟨hs, .refl s, .inl rfl⟩
  cases a with
  | publish p name data =>
    simp only [step]
    split
    · exact hs.publishes ‹_›
    · exact hstay
  | advance p ok written =>
    simp only [step]
    split
    · exact hs.advances ‹_› ok written
    · exact hstay
  | construct q pendingPublication =>
    exact hs.setReader ⟨fun _ _ _ h => (by cases h), fun _ _ h => (by cases h),
      fun _ _ _ _ h => by cases h⟩ q (.inl rfl)
  | read q name => exact hs.opens q name
  | proceed q =>
    simp only [step]
    split
    · rename_i call hcall
      obtain ⟨reader', hr', heq | ⟨e, hfits, heq⟩⟩ :=
        readStep_reacts hs.files (hs.reads q) hcall q
      · rw [heq]
        exact hs.setReader hr' q (.inl rfl)
      · rw [heq]
        exact hs.setReader hr' q (.inr ⟨e, hfits, rfl⟩)
    · exact hstay

theorem Sound.run (hs : s.Sound) : (s.run actions).Sound :=
  run_invariant hs fun _ a hs => (hs.moves a).sound

/-- What has been returned: nothing, a refusal to a reader that does not wait for publications, or
what is made of a file that is settled. -/
def Truthful (s : Directory) : Prop :=
  ∀ e ∈ s.returned, e.result = .ok none ∨ (e.pending = false ∧ e.result = .error .unsafeFile) ∨
    ∃ p ino, s.names e.name = some p ∧ s.Settled p ino ∧ e.result = verdict ino.content

theorem Truthful.moves {s' : Directory} (h : s.Truthful) (hm : s.Moves s') : s'.Truthful := by
  intro e he
  have hnew : e ∈ s.returned ∨ s.Fits e := by
    rcases hm.returned with heq | ⟨e', hfits, heq⟩
    · exact .inl (heq ▸ he)
    · rw [heq, List.mem_append, List.mem_singleton] at he
      rcases he with hold | rfl
      · exact .inl hold
      · exact .inr hfits
  rcases hnew with hold | ⟨-, hnone⟩ | ⟨p, ino, hname, hino, hlink, ⟨-, hres⟩ | ⟨hst, hres⟩⟩
  · rcases h e hold with hnone | hrefused | ⟨p, ino, hname, hset, hres⟩
    · exact .inl hnone
    · exact .inr (.inl hrefused)
    · exact .inr (.inr ⟨p, ino, hm.onward.names _ p hname, hm.onward.settled p ino hset, hres⟩)
  · exact .inl hnone
  · cases hp : e.pending with
    | true => exact .inl (by rw [hres, if_pos hp])
    | false => exact .inr (.inl ⟨rfl, by rw [hres, hp]; rfl⟩)
  · exact .inr (.inr ⟨p, ino, hm.onward.names _ p hname, hm.onward.settled p ino ⟨hino, hst, hlink⟩,
      hres⟩)

/-- What is returned once a file is settled is what is made of it. -/
theorem settled_run (hs : s.Sound) (hname : s.names name = some p) (hset : s.Settled p ino) :
    ∀ e ∈ (s.run actions).returned.drop s.returned.length, e.name = name →
      e.result = verdict ino.content := by
  have hinv : ∀ {s' : Directory}, s'.Sound ∧ s.Onward s' ∧
      (∃ new, s'.returned = s.returned ++ new ∧
        ∀ e ∈ new, e.name = name → e.result = verdict ino.content) → ∀ a,
      (s'.step a).Sound ∧ s.Onward (s'.step a) ∧
      ∃ new, (s'.step a).returned = s.returned ++ new ∧
        ∀ e ∈ new, e.name = name → e.result = verdict ino.content := by
    rintro s' ⟨hs', hon, new, hnew, hall⟩ a
    have hm := hs'.moves a
    refine ⟨hm.sound, hon.trans hm.onward, ?_⟩
    rcases hm.returned with heq | ⟨e, hfits, heq⟩
    · exact ⟨new, heq.trans hnew, hall⟩
    · refine ⟨new ++ [e], by rw [heq, hnew, List.append_assoc], fun e' he' hn => ?_⟩
      rcases List.mem_append.mp he' with he' | he'
      · exact hall e' he' hn
      · obtain rfl := List.mem_singleton.mp he'
        have hname' := hon.names name p hname
        have hset' := hon.settled p ino hset
        rcases hfits with ⟨hnone, -⟩ | ⟨p', ino', hp', hino', -, hrest⟩
        · rw [hn, hname'] at hnone
          cases hnone
        · rw [hn, hname'] at hp'
          obtain rfl := Option.some.inj hp'
          obtain rfl := Option.some.inj (hino'.symm.trans hset'.file)
          rcases hrest with ⟨hst, -⟩ | ⟨-, hres⟩
          · rw [hset'.unstaged] at hst
            cases hst
          · exact hres
  obtain ⟨-, -, new, hnew, hall⟩ : (s.run actions).Sound ∧ s.Onward (s.run actions) ∧
      ∃ new, (s.run actions).returned = s.returned ++ new ∧
        ∀ e ∈ new, e.name = name → e.result = verdict ino.content :=
    run_invariant (I := fun s' : Directory => s'.Sound ∧ s.Onward s' ∧
      ∃ new, s'.returned = s.returned ++ new ∧
        ∀ e ∈ new, e.name = name → e.result = verdict ino.content)
      ⟨hs, .refl s, [], by simp, by simp⟩ fun _ a h => hinv h a
  intro e he
  rw [hnew, List.drop_left] at he
  exact hall e he

theorem Files.settled_data (h : s.Files) (hname : s.names name = some p)
    (hset : s.Settled p ino) : ∃ pub, s.publications p = some pub ∧ pub.name = name ∧
      ino.content = pub.data := by
  obtain ⟨pub, ino', hpub, hn, hino', hl⟩ := h.named name p hname
  obtain rfl := Option.some.inj (hino'.symm.trans hset.file)
  have hmade := h.made p pub hpub
  refine ⟨pub, hpub, hn, ?_⟩
  rcases h.at_rest hpub hset with ⟨ok, hstage⟩ | ⟨ok, hstage⟩
  · simp only [Made, hstage, hset.file, Option.some.injEq] at hmade
    obtain ⟨ino'', rfl, -, -, hdata⟩ := hmade
    exact hdata hl
  · simp only [Made, hstage] at hmade
    exact hmade.2 _ hset.file hl

/-- No reader that waits for publications is refused a receipt, except for its size, or given a
part of one; and what one call has returned every later call of the same name returns. -/
theorem receipts_atomic (before after : List Action) :
    (∀ e ∈ (run {} before).returned, e.pending = true → e.result = .ok none ∨
      ∃ p pub, (run {} before).publications p = some pub ∧ pub.name = e.name ∧
        (run {} before).names e.name = some p ∧ e.result = verdict pub.data) ∧
    ∀ e ∈ (run {} before).returned, ∀ data, e.result = .ok (some data) →
      ∀ e' ∈ (run {} (before ++ after)).returned.drop (run {} before).returned.length,
        e'.name = e.name → e'.result = .ok (some data) := by
  have hs : (run {} before).Sound := sound_fresh.run
  have htrue : (run {} before).Truthful := by
    have hboth : (run {} before).Sound ∧ (run {} before).Truthful :=
      run_invariant (I := fun s : Directory => s.Sound ∧ s.Truthful)
        ⟨sound_fresh, fun _ h => by cases h⟩
        fun _ a h => ⟨(h.1.moves a).sound, h.2.moves (h.1.moves a)⟩
    exact hboth.2
  refine ⟨fun e he hp => ?_, fun e he data hdata e' he' hn => ?_⟩
  · rcases htrue e he with hnone | ⟨hp', -⟩ | ⟨p, ino, hname, hset, hres⟩
    · exact .inl hnone
    · rw [hp] at hp'
      cases hp'
    · obtain ⟨pub, hpub, hn, hdata⟩ := hs.files.settled_data hname hset
      exact .inr ⟨p, pub, hpub, hn, hname, hdata ▸ hres⟩
  · rcases htrue e he with hnone | ⟨-, hres⟩ | ⟨p, ino, hname, hset, hres⟩
    · rw [hdata] at hnone
      cases hnone
    · rw [hdata] at hres
      cases hres
    · rw [run_append] at he'
      rw [settled_run hs hname hset e' he' hn, ← hres, hdata]

/-- A call of `_publish_receipt` that has returned is the only one for its name, and every later
call of `read` returns its value. -/
theorem published_once {before after : List Action} {pub : Publication}
    (hpub : (run {} before).publications p = some pub) (hdone : pub.stage = .done true) :
    (∀ p' pub', (run {} before).publications p' = some pub' → pub'.stage = .done true →
      pub'.name = pub.name → p' = p) ∧
    ∀ e ∈ (run {} (before ++ after)).returned.drop (run {} before).returned.length,
      e.name = pub.name → e.result = verdict pub.data := by
  have hs : (run {} before).Sound := sound_fresh.run
  have hsettled : ∀ p pub, (run {} before).publications p = some pub → pub.stage = .done true →
      (run {} before).names pub.name = some p ∧ ∃ ino, (run {} before).Settled p ino ∧
        ino.content = pub.data := by
    intro p pub hpub hdone
    have hmade := hs.files.made p pub hpub
    simp only [Made, hdone, true_implies] at hmade
    obtain ⟨⟨ino, hino, hst, hl⟩, hdata⟩ := hmade
    exact ⟨hs.files.linked p pub ino hpub hino hl, ino, ⟨hino, hst, hl⟩, hdata ino hino hl⟩
  obtain ⟨hname, ino, hset, hdata⟩ := hsettled p pub hpub hdone
  refine ⟨fun p' pub' hpub' hdone' hn => ?_, fun e he hn => ?_⟩
  · have hname' := (hsettled p' pub' hpub' hdone').1
    rw [hn, hname] at hname'
    exact (Option.some.inj hname').symm
  · rw [run_append] at he
    rw [settled_run hs hname hset e he hn, hdata]

end Runs

/-- A call of `_publish_receipt`, and then one of `read`. -/
def toyPublished : List Action :=
  .publish 0 "final.json" [1, 2] :: List.replicate 8 (Action.advance 0 true 2)

def toyRead : List Action :=
  .read 1 "final.json" :: List.replicate 3 (Action.proceed 1)

theorem published_once_read : (run {} (toyPublished ++ toyRead)).returned.length = 1 ∧
    (∀ p' pub', (run {} toyPublished).publications p' = some pub' → pub'.stage = .done true →
      pub'.name = "final.json" → p' = 0) ∧
    ∀ e ∈ (run {} (toyPublished ++ toyRead)).returned.drop (run {} toyPublished).returned.length,
      e.name = "final.json" → e.result = verdict [1, 2] :=
  ⟨by decide +kernel, @published_once 0 toyPublished toyRead ⟨"final.json", [1, 2], .done true⟩
    (by decide +kernel) rfl⟩

end Directory
end Orchestrator.Native.Receipts
