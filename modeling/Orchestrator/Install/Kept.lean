import Orchestrator.Install.Package

/-!
# Pinned versions are kept

Whatever the processes call and wherever they die: an uninstallation leaves a version alone as
long as there is a pin to it, and nothing is pinned that an uninstallation has begun to take away.
-/
namespace Orchestrator.Install
open Library

/-! ## The pins on the disk -/

/-- A task has a pin to the version. -/
def Pinned (s : Disk) (version : String) : Prop :=
  ∃ taskId p, (taskId, PinFile.whole p) ∈ s.pins ∧ p.version = version

section
variable {s : Disk} {version taskId taskId' : String} {x : VersionFiles} {f : PinFile}

theorem not_pinned_of_checkPins (h : checkPins version s.pins = none) : ¬ Pinned s version := by
  rintro ⟨taskId, p, hmem, rfl⟩
  unfold checkPins at h
  dsimp only at h
  split at h
  next hfind =>
    have hnone := List.find?_eq_none.1 hfind (taskId, .whole p) ((List.mem_insertionSort _).2 hmem)
    simp at hnone
  · cases h
  · cases h

theorem pinned_of_lookup {p : Pin} (h : s.pins.lookup taskId = some (.whole p)) :
    Pinned s p.version := by
  obtain ⟨l₁, l₂, hl, -⟩ := List.lookup_eq_some_iff.1 h
  exact ⟨taskId, p, by simp [hl], rfl⟩

@[simp] theorem pins_setVersion : (s.setVersion version x).pins = s.pins := rfl
@[simp] theorem fresh_setVersion : (s.setVersion version x).fresh = s.fresh := rfl
@[simp] theorem version_setPin : (s.setPin taskId f).version = s.version := rfl
@[simp] theorem version_erasePin : (s.erasePin taskId).version = s.version := rfl
@[simp] theorem fresh_setPin : (s.setPin taskId f).fresh = s.fresh := rfl
@[simp] theorem fresh_erasePin : (s.erasePin taskId).fresh = s.fresh := rfl

@[simp]
theorem version_setVersion : (s.setVersion version x).version version = x := by
  simp [Disk.setVersion]

theorem version_setVersion_of_ne {other : String} (h : other ≠ version) :
    (s.setVersion version x).version other = s.version other := by
  simp [Disk.setVersion, h]

theorem lookup_filter {pins : List (String × PinFile)} :
    (pins.filter fun entry => entry.1 ≠ taskId).lookup taskId' =
      if taskId' = taskId then none else pins.lookup taskId' := by
  induction pins with
  | nil => simp
  | cons entry pins ih =>
    obtain ⟨k, f⟩ := entry
    by_cases hk : k = taskId <;> by_cases hk' : taskId' = k <;> grind

theorem lookup_setPin : (s.setPin taskId f).pins.lookup taskId = some f := by
  simp only [Disk.setPin, List.lookup_append, lookup_filter]
  simp

theorem lookup_setPin_of_ne (h : taskId' ≠ taskId) :
    (s.setPin taskId f).pins.lookup taskId' = s.pins.lookup taskId' := by
  simp only [Disk.setPin, List.lookup_append, lookup_filter, if_neg h]
  rw [List.lookup_cons, beq_false_of_ne h]
  exact Option.or_none

theorem lookup_erasePin : (s.erasePin taskId).pins.lookup taskId = none := by
  simp only [Disk.erasePin, lookup_filter]
  simp

theorem lookup_erasePin_of_ne (h : taskId' ≠ taskId) :
    (s.erasePin taskId).pins.lookup taskId' = s.pins.lookup taskId' := by
  simp only [Disk.erasePin, lookup_filter]
  simp [h]

end

/-! ## What an uninstallation does to the trees -/

/-- The places at which the root has left its place. -/
def Removal.past : Removal → Bool
  | .createIntent _ | .writeIntent _ | .quarantine _ => false
  | _ => true

/-- What an operation does to the root and to what is in quarantine. -/
inductive Handles (past : Bool) (x x' : VersionFiles) : Prop where
  | keeps (root : x'.root = x.root) (quarantine : x'.quarantine = x.quarantine)
  | moves (t : Tree) (first : past = false) (root : x.root = some t) (moved : x'.root = none)
      (quarantine : x'.quarantine = some t)
  | strips (t t' : Tree) (later : past = true) (root : x'.root = x.root)
      (quarantine : x.quarantine = some t) (left : x'.quarantine = some t')
      (same : t'.inode = t.inode)
  | takes (t : Tree) (later : past = true) (root : x'.root = x.root)
      (quarantine : x.quarantine = some t) (taken : x'.quarantine = none)

section
variable {sha : Manifest → Nat} {r r' : Removal} {x x' : VersionFiles} {u : Pending}

theorem handles_quarantine : Handles false x (quarantineStep u x).1 := by
  unfold quarantineStep
  split
  · exact .keeps rfl rfl
  next t hroot =>
    split
    · exact .keeps rfl rfl
    split
    · exact .keeps rfl rfl
    · exact .moves t rfl hroot rfl rfl
  · split <;> exact .keeps rfl rfl

theorem handles_openSink : Handles true x (openSinkStep u x).1 := by
  unfold openSinkStep
  split
  · exact .keeps rfl rfl
  split
  · exact .keeps rfl rfl
  · dsimp only
    split <;> exact .keeps rfl rfl

theorem handles_move {dirs : List Path} {rest : List Owned} :
    Handles true x (moveStep sha u x dirs rest).1 := by
  unfold moveStep
  split
  · exact .keeps rfl rfl
  · split
    · exact .keeps rfl rfl
    next t hq =>
    split
    · split <;> exact .keeps rfl rfl
    split
    · exact .keeps rfl rfl
    split
    · exact .keeps rfl rfl
    · exact .strips t _ rfl rfl hq rfl rfl
  · split
    · exact .keeps rfl rfl
    next t hq =>
    split
    · split <;> exact .keeps rfl rfl
    split
    · exact .keeps rfl rfl
    · exact .strips t _ rfl rfl hq rfl rfl

theorem handles_moveDir {dirs : List Path} : Handles true x (moveDirStep u x dirs).1 := by
  unfold moveDirStep
  split
  · exact .keeps rfl rfl
  split
  · exact .keeps rfl rfl
  next t hq =>
  split
  · exact .strips t _ rfl rfl hq rfl rfl
  · split <;> exact .keeps rfl rfl

theorem handles_unlinkDir {dirs : List Path} : Handles true x (unlinkDirStep u x dirs).1 := by
  unfold unlinkDirStep
  split
  · split <;> exact .keeps rfl rfl
  · exact .keeps rfl rfl

theorem handles_moveRoot : Handles true x (moveRootStep u x).1 := by
  unfold moveRootStep
  split
  · exact .keeps rfl rfl
  next t hq => exact .takes t rfl rfl hq rfl

theorem handles_unlinkRoot : Handles true x (unlinkRootStep u x).1 := by
  unfold unlinkRootStep
  split
  · split <;> exact .keeps rfl rfl
  · exact .keeps rfl rfl

theorem handles_removeReceipt : Handles true x (removeReceiptStep u x).1 := by
  unfold removeReceiptStep
  split
  · exact .keeps rfl rfl
  · exact .keeps rfl rfl
  · split <;> exact .keeps rfl rfl

theorem handles_removal : Handles r.past x (removalStep sha r x).1 := by
  cases r with
  | createIntent i =>
    unfold removalStep
    dsimp only
    split <;> exact .keeps rfl rfl
  | writeIntent i => exact .keeps rfl rfl
  | quarantine u => exact handles_quarantine
  | openSink u => exact handles_openSink
  | move u rest dirs => exact handles_move
  | unlink u rest dirs => exact .keeps rfl rfl
  | moveDir u dirs => exact handles_moveDir
  | unlinkDir u dirs => exact handles_unlinkDir
  | moveRoot u => exact handles_moveRoot
  | unlinkRoot u => exact handles_unlinkRoot
  | removeSink u => exact .keeps rfl rfl
  | removeReceipt u => exact handles_removeReceipt
  | removeIntent u => exact .keeps rfl rfl

theorem Handles.root_past (h : Handles true x x') : x'.root = x.root := by
  cases h with
  | keeps root => exact root
  | moves t first => cases first
  | strips t t' later root => exact root
  | takes t later root => exact root

/-- A root is never put back. -/
theorem Handles.root {past : Bool} (h : Handles past x x') : x'.root = x.root ∨ x'.root = none := by
  cases h with
  | keeps root => exact .inl root
  | moves t first root moved => exact .inr moved
  | strips t t' later root => exact .inl root
  | takes t later root => exact .inl root

/-- What is in quarantine was a root, or was there. -/
theorem Handles.inode {past : Bool} {t : Tree} (h : Handles past x x')
    (ht : x'.quarantine = some t) :
    ∃ t', (x.root = some t' ∨ x.quarantine = some t') ∧ t'.inode = t.inode := by
  cases h with
  | keeps root quarantine => exact ⟨t, .inr (quarantine ▸ ht), rfl⟩
  | moves t' first root moved quarantine =>
    cases ht.symm.trans quarantine
    exact ⟨t, .inl root, rfl⟩
  | strips t₁ t₂ later root quarantine left same =>
    cases ht.symm.trans left
    exact ⟨t₁, .inr quarantine, same.symm⟩
  | takes t' later root quarantine taken => cases ht.symm.trans taken

/-- An uninstallation never waits for the lock again. -/
theorem removal_ne_yield : (removalStep sha r x).2 ≠ .yield r' := by
  unfold removalStep quarantineStep openSinkStep moveStep moveDirStep unlinkDirStep moveRootStep
    unlinkRootStep removeReceiptStep
  grind

theorem quarantine_root (h : (quarantineStep u x).2 = .go r') :
    (quarantineStep u x).1.root = none := by
  revert h
  unfold quarantineStep
  split
  next hroot _ => exact fun _ => hroot
  · split
    · nofun
    split
    · nofun
    · exact fun _ => rfl
  next hroot _ =>
    split
    · nofun
    · exact fun _ => hroot

/-- Past its first places an uninstallation finds no root. -/
theorem past_root (h : r.past = true → x.root = none) (hstep : (removalStep sha r x).2 = .go r')
    (hr' : r'.past = true) : (removalStep sha r x).1.root = none := by
  by_cases hr : r.past = true
  · have hhandles := @handles_removal sha r x
    rw [hr] at hhandles
    rw [hhandles.root_past, h hr]
  · cases r with
    | createIntent i =>
      unfold removalStep at hstep
      dsimp only at hstep
      split at hstep
      · cases hstep
      · cases hstep
        cases hr'
    | writeIntent i =>
      cases hstep
      cases hr'
    | quarantine u => exact quarantine_root hstep
    | _ => exact absurd rfl hr

end

/-! ## Places -/

/-- A place of an uninstallation, of the version that it is about. -/
def Place.uninstalls : Place → Option String
  | .uninstall version | .removing version _ => some version
  | _ => none

section
variable (sha : Manifest → Nat)

/-- The inodes that are in use have been given. -/
def Issued (s : Disk) : Prop :=
  ∀ version t, (s.version version).root = some t ∨ (s.version version).quarantine = some t →
    t.inode < s.fresh

/-- What is known at a place. -/
def At : Place → Disk → Prop
  | .writePin taskId version, s =>
    verifyInstalled sha version (s.version version) = true ∧
      s.pins.lookup taskId = some .invalid
  | .copy _ _ stage _, s | .publish _ _ stage _, s => stage.inode < s.fresh
  | .removing version r, s =>
    ¬ Pinned s version ∧ (r.past = true → (s.version version).root = none)
  | _, _ => True

/-- What an operation leaves, and where it leads. -/
def Stays (result : Disk × Leads Place Answer) : Prop :=
  Issued result.1 ∧ match result.2 with
    | .go r => At sha r result.1
    | .yield _ => False
    | .done _ => True

section
variable {sha} {s s' : Disk} {r' : Place} {version taskId : String} {src : Source}

theorem At.start {c : Call} : At sha c.start s := by
  cases c <;> trivial

theorem issued_setVersion {x : VersionFiles} (h : Issued s)
    (hx : ∀ t, x.root = some t ∨ x.quarantine = some t → t.inode < s.fresh) :
    Issued (s.setVersion version x) := by
  intro v t ht
  by_cases hv : v = version
  · subst hv
    rw [version_setVersion] at ht
    exact hx t ht
  · rw [version_setVersion_of_ne hv] at ht
    exact h v t ht

theorem Issued.mono {n : Nat} (h : Issued s) (hn : s.fresh ≤ n) : Issued { s with fresh := n } :=
  fun v t ht => (h v t ht).trans_le hn

theorem inode_finishStage {stage stage' : Tree} {m : Manifest} {stamp : Nat}
    (h : finishStage version src stage stamp = .ok (stage', m)) : stage'.inode = stage.inode := by
  unfold finishStage at h
  split at h
  · cases h
  next stage₁ hbinary =>
    have hinode : stage₁.inode = stage.inode := by
      unfold addBinary at hbinary
      split at hbinary
      · split at hbinary
        · cases hbinary
          rfl
        · cases hbinary
      · split at hbinary
        · cases hbinary
        · cases hbinary
          rfl
    split at h
    · cases h
    · cases h
      exact hinode

theorem stays_pin (h : Issued s) : Stays sha (pinStep sha taskId version s) := by
  unfold pinStep
  dsimp only
  split
  · exact ⟨h, trivial⟩
  split
  · exact ⟨h, trivial⟩
  next hverified =>
  split
  · exact ⟨h, trivial⟩
  · split <;> exact ⟨h, trivial⟩
  · exact ⟨h, by simpa using hverified, lookup_setPin⟩

theorem stays_unpin (h : Issued s) : Stays sha (unpinStep taskId s) := by
  unfold unpinStep
  dsimp only
  split
  · exact ⟨h, trivial⟩
  split
  · exact ⟨h, trivial⟩
  · exact ⟨h, trivial⟩
  · split <;> exact ⟨h, trivial⟩

theorem stays_install (h : Issued s) : Stays sha (installStep version src s) := by
  unfold installStep
  dsimp only
  split
  · exact ⟨h, trivial⟩
  split
  · exact ⟨h, trivial⟩
  · exact ⟨h.mono (Nat.le_succ _), Nat.lt_succ_self _⟩

theorem stays_copy {stage : Tree} {rest : List SourceEntry} (h : Issued s)
    (hstage : stage.inode < s.fresh) : Stays sha (copyStep version src stage s rest) := by
  unfold copyStep
  split
  · split
    · exact ⟨h, trivial⟩
    · exact ⟨h, hstage⟩
  · split
    · exact ⟨h, trivial⟩
    · exact ⟨h.mono (Nat.le_succ _), hstage.trans (Nat.lt_succ_self _)⟩
  · exact ⟨h, trivial⟩
  · split
    · exact ⟨h, trivial⟩
    next stage' m hfinish =>
      refine ⟨h.mono (Nat.le_succ _), ?_⟩
      change stage'.inode < s.fresh + 1
      rw [inode_finishStage hfinish]
      exact hstage.trans (Nat.lt_succ_self _)

theorem stays_publish {stage : Tree} {m : Manifest} (h : Issued s)
    (hstage : stage.inode < s.fresh) :
    Stays sha (onVersion version s (publishStep version src stage m)) := by
  unfold onVersion publishStep
  dsimp only
  split
  · exact ⟨issued_setVersion h (h version), trivial⟩
  · refine ⟨issued_setVersion h fun t ht => ?_, trivial⟩
    rcases ht with ht | ht
    · cases ht
      exact hstage
    · exact h version t (.inr ht)

theorem stays_createReceipt {m : Manifest} (h : Issued s) :
    Stays sha (onVersion version s (createReceiptStep version src m)) := by
  unfold onVersion createReceiptStep
  dsimp only
  split
  · exact ⟨issued_setVersion h (h version), trivial⟩
  · exact ⟨issued_setVersion h (h version), trivial⟩

theorem stays_uninstall (h : Issued s) : Stays sha (s, uninstallStep sha version s) := by
  unfold uninstallStep
  split
  · exact ⟨h, trivial⟩
  next hpins =>
  have hpinned := not_pinned_of_checkPins hpins
  unfold beginRemoval
  split
  · exact ⟨h, trivial⟩
  · exact ⟨h, hpinned, nofun⟩
  split
  · split
    · split
      · exact ⟨h, trivial⟩
      · exact ⟨h, hpinned, nofun⟩
    · exact ⟨h, trivial⟩
  · exact ⟨h, trivial⟩

theorem stays_removing {r : Removal} (h : Issued s) (hr : At sha (.removing version r) s) :
    Stays sha (packageStep sha (.removing version r) s) := by
  obtain ⟨hpinned, hpast⟩ := hr
  have hhandles := @handles_removal sha r (s.version version)
  have hissued : Issued (packageStep sha (.removing version r) s).1 := by
    refine issued_setVersion h fun t ht => ?_
    rcases ht with ht | ht
    · rcases hhandles.root with hroot | hroot
      · exact h version t (.inl (hroot ▸ ht))
      · cases hroot.symm.trans ht
    · obtain ⟨t', ht', hinode⟩ := hhandles.inode ht
      exact hinode ▸ h version t' ht'
  refine ⟨hissued, ?_⟩
  have hleads : (packageStep sha (.removing version r) s).2 =
      liftRemoval version (removalStep sha r (s.version version)).2 := rfl
  rw [hleads]
  rcases hgo : (removalStep sha r (s.version version)).2 with r' | r' | ⟨status, error⟩
  · refine ⟨hpinned, fun hr' => ?_⟩
    have hroot := past_root hpast hgo hr'
    simpa [packageStep, onVersion] using hroot
  · exact removal_ne_yield hgo
  · trivial

theorem stays_step {r : Place} (h : Issued s) (hr : At sha r s) :
    Stays sha (packageStep sha r s) := by
  cases r with
  | pin taskId version => exact stays_pin h
  | writePin taskId version => exact ⟨h, trivial⟩
  | unpin taskId => exact stays_unpin h
  | install version src => exact stays_install h
  | copy version src stage rest => exact stays_copy h hr
  | publish version src stage m => exact stays_publish h hr
  | createReceipt version src m => exact stays_createReceipt h
  | writeReceipt version src m => exact ⟨issued_setVersion h (h version), trivial⟩
  | uninstall version => exact stays_uninstall h
  | removing version r => exact stays_removing h hr

end

/-! ## Every run -/

variable (π : Type) [DecidableEq π]

/-- A call that waits for the lock has done nothing. -/
def waitsAtStart (r : Place) : Prop := ∃ c : Call, r = c.start

theorem waits_start (c : Call) : waitsAtStart ((package sha).start c) := ⟨c, rfl⟩

def issuedRule : Rule π (package sha) where
  waits := waitsAtStart
  quiet s _ := Issued s
  inside r s _ := Issued s ∧ At sha r s
  mayCrash _ _ := True
  mayStep _ _ := True
  start := waits_start sha
  enter := by
    rintro _ s l ⟨c, rfl⟩ h
    exact ⟨h, .start⟩
  crash := fun h _ => h.1
  go := fun h _ hstep => by
    have hstays := stays_step h.1 h.2
    have heq : packageStep sha _ _ = _ := hstep
    rw [heq] at hstays
    exact hstays
  yield := fun h _ hstep => by
    have hstays := stays_step h.1 h.2
    have heq : packageStep sha _ _ = _ := hstep
    rw [heq] at hstays
    exact hstays.2.elim
  done := fun h _ hstep _ => by
    have hstays := stays_step h.1 h.2
    have heq : packageStep sha _ _ = _ := hstep
    rw [heq] at hstays
    exact hstays.1

/-! ## Pins that are returned -/

section
variable {sha} {π} {s : Disk} {r : Place} {w : Crowd π Disk Place Answer} {act : Act π Call}
  {acts : List (Act π Call)} {p : π} {taskId version : String} {u : String}

theorem issued_empty : Issued .empty := by
  intro version t ht
  rcases ht with ht | ht <;> cases ht

omit [DecidableEq π] in
theorem issued_allows : (issuedRule sha π).Allows w act := by
  cases act <;> simp [Rule.Allows, issuedRule]

theorem holds_run (h : (issuedRule sha π).Holds w) :
    (issuedRule sha π).Holds (run (package sha).next w acts) :=
  run_invariant h fun _ _ hw => hw.next issued_allows

/-- An uninstallation leaves a version alone that is pinned. -/
theorem version_kept (h : (issuedRule sha π).Holds w) (hholder : w.holder = some (p, r))
    (hr : r.uninstalls = some u) (hpinned : Pinned w.files version) :
    ((package sha).next w (.operate : Act π Call)).files.version version =
      w.files.version version := by
  rw [Sections.files_operate hholder]
  cases r with
  | uninstall u' => rfl
  | removing u' removal =>
    have hne : version ≠ u' := by
      rintro rfl
      exact (h.inside hholder).2.1 hpinned
    exact version_setVersion_of_ne hne
  | _ => cases hr

/-- The call that a place belongs to. -/
def Place.call : Place → Call
  | .pin taskId version | .writePin taskId version => .pin taskId version
  | .unpin taskId => .unpin taskId
  | .install version src | .copy version src _ _ | .publish version src _ _
  | .createReceipt version src _ | .writeReceipt version src _ => .install version src
  | .uninstall version | .removing version _ => .uninstall version

theorem call_liftRemoval {leads : Leads Removal Stopped} {a : Answer}
    (h : liftRemoval version leads = .done a) : a.call = .uninstall version := by
  rcases leads with r' | r' | ⟨status, error⟩
  · cases h
  · cases h
  · cases h
    rfl

/-- An answer is of the call that is answered. -/
theorem call_returned {a : Answer} (h : (packageStep sha r s).2 = .done a) : a.call = r.call := by
  cases r with
  | pin taskId version =>
    simp only [packageStep, pinStep] at h
    grind [Place.call]
  | writePin taskId version =>
    cases h
    rfl
  | unpin taskId =>
    simp only [packageStep, unpinStep] at h
    grind [Place.call]
  | install version src =>
    simp only [packageStep, installStep] at h
    grind [Place.call]
  | copy version src stage rest =>
    simp only [packageStep, copyStep] at h
    grind [Place.call]
  | publish version src stage m =>
    simp only [packageStep, onVersion, publishStep] at h
    grind [Place.call]
  | createReceipt version src m =>
    simp only [packageStep, onVersion, createReceiptStep] at h
    grind [Place.call]
  | writeReceipt version src m =>
    cases h
    rfl
  | uninstall version =>
    simp only [packageStep, uninstallStep] at h
    split at h
    · cases h
      rfl
    · exact call_liftRemoval h
  | removing version r => exact call_liftRemoval h

theorem root_of_verified {x : VersionFiles} (h : verifyInstalled sha version x = true) :
    ∃ t, x.root = some t := by
  unfold verifyInstalled at h
  split at h
  next t r hroot _ => exact ⟨t, hroot⟩
  · cases h

theorem lookup_of_readPin {f : Option PinFile} {active : Pin} (h : readPin f = .ok (some active)) :
    f = some (.whole active) := by
  cases f with
  | none => cases h
  | some f => cases f with
    | invalid => cases h
    | whole p =>
      cases h
      rfl

/-- Where a pin is returned, the version has been verified and the file is there. -/
theorem pin_returned (hr : At sha r s)
    (h : (packageStep sha r s).2 = .done { call := .pin taskId version }) :
    verifyInstalled sha version (s.version version) = true ∧
      (packageStep sha r s).1.version = s.version ∧
      (packageStep sha r s).1.pins.lookup taskId = some (.whole ⟨taskId, version⟩) := by
  have hcall := call_returned h
  cases r with
  | pin taskId' version' =>
    cases hcall
    simp only [packageStep, pinStep] at h ⊢
    split at h
    · cases h
    split at h
    · cases h
    next hid hverified =>
    rw [if_neg hid, if_neg hverified]
    split at h
    · cases h
    next active hactive =>
      split at h
      next hsame =>
        obtain ⟨rfl, rfl⟩ := hsame
        rw [if_pos ⟨rfl, rfl⟩]
        exact ⟨by simpa using hverified, rfl, lookup_of_readPin hactive⟩
      · cases h
    · cases h
  | writePin taskId' version' =>
    cases hcall
    exact ⟨hr.1, rfl, lookup_setPin⟩
  | _ => cases hcall

/-- A file of a pin stays as it is until it is removed. -/
theorem pin_stays {f : Pin} (hr : At sha r s) (hpin : s.pins.lookup taskId = some (.whole f))
    (h : (packageStep sha r s).1.pins.lookup taskId ≠ none) :
    (packageStep sha r s).1.pins.lookup taskId = some (.whole f) := by
  cases r with
  | pin taskId' version =>
    simp only [packageStep, pinStep]
    split
    · exact hpin
    split
    · exact hpin
    split
    · exact hpin
    · split <;> exact hpin
    next hnone =>
      rw [lookup_setPin_of_ne, hpin]
      rintro rfl
      rw [hpin] at hnone
      cases hnone
  | writePin taskId' version =>
    refine (lookup_setPin_of_ne ?_).trans hpin
    rintro rfl
    cases hpin.symm.trans hr.2
  | unpin taskId' =>
    simp only [packageStep, unpinStep] at h ⊢
    split at h
    next hid => rwa [if_pos hid]
    next hid =>
    rw [if_neg hid]
    split at h
    · exact hpin
    · exact hpin
    next active hread =>
      split at h
      next hne => rwa [if_pos hne]
      next hne =>
        rw [if_neg hne, lookup_erasePin_of_ne, hpin]
        rintro rfl
        exact h lookup_erasePin
  | install version src =>
    simp only [packageStep, installStep]
    split
    · exact hpin
    · split <;> exact hpin
  | copy version src stage rest =>
    simp only [packageStep, copyStep]
    split
    · split <;> exact hpin
    · split <;> exact hpin
    · exact hpin
    · split <;> exact hpin
  | publish version src stage m => exact hpin
  | createReceipt version src m => exact hpin
  | writeReceipt version src m => exact hpin
  | uninstall version => exact hpin
  | removing version r => exact hpin

end

/-! ## Trees that are touched -/

/-- Where the tree with the inode stood, it does not stand as it was. -/
def Touches (x x' : VersionFiles) (inode : Nat) : Prop :=
  (∃ t, x.root = some t ∧ t.inode = inode ∧ x'.root ≠ some t) ∨
    ∃ t, x.quarantine = some t ∧ t.inode = inode ∧ x'.quarantine ≠ some t

theorem touches_of_gone {x x' : VersionFiles} {inode : Nat}
    (hroot : x.root.map (·.inode) = some inode) (hgone : x'.root = none) : Touches x x' inode := by
  obtain ⟨t, ht, hinode⟩ := Option.map_eq_some_iff.1 hroot
  exact .inl ⟨t, ht, hinode, by simp [hgone]⟩

/-- The root of the version is another tree. -/
def Gone (inode : Nat) (version : String) (s : Disk) : Prop :=
  inode < s.fresh ∧ ∀ t, (s.version version).root = some t → t.inode ≠ inode

/-- The stage that is at hand. -/
def Place.stage : Place → Option Tree
  | .copy _ _ stage _ | .publish _ _ stage _ => some stage
  | _ => none

section
variable {sha} {π} {s : Disk} {r : Place} {w : Crowd π Disk Place Answer} {act : Act π Call}
  {acts : List (Act π Call)} {p : π} {version u : String} {inode : Nat} {removal : Removal}

theorem gone_of_touches (h : Issued s) (hr : At sha (.removing version removal) s)
    (htouches : Touches (s.version version)
      ((packageStep sha (.removing version removal) s).1.version version) inode) :
    Gone inode version (packageStep sha (.removing version removal) s).1 := by
  have hlt : inode < s.fresh := by
    rcases htouches with ⟨t, ht, rfl, -⟩ | ⟨t, ht, rfl, -⟩
    · exact h version t (.inl ht)
    · exact h version t (.inr ht)
  have hx' : (packageStep sha (.removing version removal) s).1.version version =
    (removalStep sha removal (s.version version)).1 := version_setVersion
  refine ⟨hlt, fun t ht => ?_⟩
  rw [hx'] at ht htouches
  cases @handles_removal sha removal (s.version version) with
  | keeps root quarantine =>
    rcases htouches with ⟨t', ht', -, hne⟩ | ⟨t', ht', -, hne⟩
    · exact absurd (root.trans ht') hne
    · exact absurd (quarantine.trans ht') hne
  | moves t' first root moved quarantine => cases moved.symm.trans ht
  | strips t₁ t₂ later root quarantine left same => cases (hr.2 later).symm.trans (root ▸ ht)
  | takes t' later root quarantine taken => cases (hr.2 later).symm.trans (root ▸ ht)

theorem gone_setVersion {v : String} {x : VersionFiles} (h : Gone inode version s)
    (hx : v = version → ∀ t, x.root = some t → t.inode ≠ inode) :
    Gone inode version (s.setVersion v x) := by
  refine ⟨h.1, fun t ht => ?_⟩
  by_cases hv : version = v
  · subst hv
    rw [version_setVersion] at ht
    exact hx rfl t ht
  · rw [version_setVersion_of_ne hv] at ht
    exact h.2 t ht

theorem Gone.mono {n : Nat} (h : Gone inode version s) (hn : s.fresh ≤ n) :
    Gone inode version { s with fresh := n } :=
  ⟨h.1.trans_le hn, h.2⟩

theorem gone_step (h : Gone inode version s) (hstage : ∀ t, r.stage = some t → t.inode ≠ inode) :
    Gone inode version (packageStep sha r s).1 := by
  cases r with
  | pin taskId v =>
    simp only [packageStep, pinStep]
    split
    · exact h
    split
    · exact h
    split
    · exact h
    · split <;> exact h
    · exact h
  | writePin taskId v => exact h
  | unpin taskId =>
    simp only [packageStep, unpinStep]
    split
    · exact h
    split
    · exact h
    · exact h
    · split <;> exact h
  | install v src =>
    simp only [packageStep, installStep]
    split
    · exact h
    split
    · exact h
    · exact h.mono (Nat.le_succ _)
  | copy v src stage rest =>
    simp only [packageStep, copyStep]
    split
    · split <;> exact h
    · split
      · exact h
      · exact h.mono (Nat.le_succ _)
    · exact h
    · split
      · exact h
      · exact h.mono (Nat.le_succ _)
  | publish v src stage m =>
    refine gone_setVersion h fun hv t ht => ?_
    subst hv
    simp only [publishStep] at ht
    split at ht
    · exact h.2 t ht
    · cases ht
      exact hstage stage rfl
  | createReceipt v src m =>
    refine gone_setVersion h fun hv t ht => ?_
    subst hv
    simp only [createReceiptStep] at ht
    split at ht <;> exact h.2 t ht
  | writeReceipt v src m => exact gone_setVersion h fun hv t ht => h.2 t (hv ▸ ht)
  | uninstall v => exact h
  | removing v r =>
    refine gone_setVersion h fun hv t ht => ?_
    subst hv
    rcases (@handles_removal sha r (s.version v)).root with hroot | hroot
    · exact h.2 t (hroot ▸ ht)
    · cases hroot.symm.trans ht

theorem stage_liftRemoval {leads : Leads Removal Stopped} {r' : Place}
    (h : liftRemoval version leads = .go r') : r'.stage = none := by
  rcases leads with r | r | ⟨status, error⟩
  · cases h
    rfl
  · cases h
  · cases h

theorem stage_step {r' : Place} (h : Gone inode version s)
    (hstage : ∀ t, r.stage = some t → t.inode ≠ inode)
    (hstep : (packageStep sha r s).2 = .go r') : ∀ t, r'.stage = some t → t.inode ≠ inode := by
  intro t ht
  cases r with
  | install v src =>
    simp only [packageStep, installStep] at hstep
    split at hstep
    · cases hstep
    split at hstep
    · cases hstep
    · cases hstep
      cases ht
      exact h.1.ne'
  | copy v src stage rest =>
    simp only [packageStep, copyStep] at hstep
    split at hstep
    · split at hstep
      · cases hstep
      · cases hstep
        cases ht
        exact hstage stage rfl
    · split at hstep
      · cases hstep
      · cases hstep
        cases ht
        exact hstage stage rfl
    · cases hstep
    · split at hstep
      · cases hstep
      next stage' m hfinish =>
        cases hstep
        cases ht
        rw [inode_finishStage hfinish]
        exact hstage stage rfl
  | pin taskId v =>
    simp only [packageStep, pinStep] at hstep
    grind [Place.stage]
  | writePin taskId v => cases hstep
  | unpin taskId =>
    simp only [packageStep, unpinStep] at hstep
    grind [Place.stage]
  | publish v src stage m =>
    simp only [packageStep, onVersion, publishStep] at hstep
    grind [Place.stage]
  | createReceipt v src m =>
    simp only [packageStep, onVersion, createReceiptStep] at hstep
    grind [Place.stage]
  | writeReceipt v src m => cases hstep
  | uninstall v =>
    simp only [packageStep, uninstallStep] at hstep
    split at hstep
    · cases hstep
    · cases (stage_liftRemoval hstep).symm.trans ht
  | removing v r => cases (stage_liftRemoval hstep).symm.trans ht

variable (sha π) in
/-- Once the tree is gone, it is gone in every run. -/
def goneRule (inode : Nat) (version : String) : Rule π (package sha) where
  waits := waitsAtStart
  quiet s _ := Issued s ∧ Gone inode version s
  inside r s _ := (Issued s ∧ At sha r s) ∧ Gone inode version s ∧
    ∀ t, r.stage = some t → t.inode ≠ inode
  mayCrash _ _ := True
  mayStep _ _ := True
  start := fun c => ⟨c, rfl⟩
  enter := by
    rintro _ s l ⟨c, rfl⟩ h
    exact ⟨⟨h.1, .start⟩, h.2, fun t ht => by cases c <;> cases ht⟩
  crash := fun h _ => ⟨h.1.1, h.2.1⟩
  go := fun {r s l s' r'} h _ hstep => by
    have heq : packageStep sha r s = (s', .go r') := hstep
    have hstays := stays_step h.1.1 h.1.2
    have hgone : Gone inode version (packageStep sha r s).1 := gone_step h.2.1 h.2.2
    have hstage := stage_step h.2.1 h.2.2 (congrArg Prod.snd heq)
    rw [heq] at hstays hgone
    exact ⟨hstays, hgone, hstage⟩
  yield := fun {r s l s' r'} h _ hstep => by
    have heq : packageStep sha r s = (s', .yield r') := hstep
    have hstays := stays_step h.1.1 h.1.2
    rw [heq] at hstays
    exact hstays.2.elim
  done := fun {r s l s' a} h _ hstep _ => by
    have heq : packageStep sha r s = (s', .done a) := hstep
    have hstays := stays_step h.1.1 h.1.2
    have hgone : Gone inode version (packageStep sha r s).1 := gone_step h.2.1 h.2.2
    rw [heq] at hstays hgone
    exact ⟨hstays.1, hgone⟩

omit [DecidableEq π] in
theorem gone_allows : (goneRule sha π inode version).Allows w act := by
  cases act <;> simp [Rule.Allows, goneRule]

/-- An operation of an uninstallation that touches the tree makes it gone. -/
theorem holds_gone (h : (issuedRule sha π).Holds w)
    (hholder : w.holder = some (p, .removing version removal))
    (htouches : Touches (w.files.version version)
      (((package sha).next w (.operate : Act π Call)).files.version version) inode) :
    (goneRule sha π inode version).Holds ((package sha).next w .operate) := by
  have hnext : (issuedRule sha π).Holds ((package sha).next w .operate) := h.next issued_allows
  have hinside := h.inside hholder
  have hfiles := Sections.files_operate (m := package sha) (ι := Call) hholder
  rw [hfiles] at htouches
  have hgone := gone_of_touches hinside.1 hinside.2 htouches
  rw [← show _ = (packageStep sha (.removing version removal) w.files).1 from hfiles] at hgone
  refine ⟨fun hnone => ⟨hnext.quiet hnone, hgone⟩, fun {q r'} hq => ?_, hnext.waits⟩
  have hstage : r'.stage = none := stage_liftRemoval (Sections.leads_of_holder hholder hq)
  exact ⟨hnext.inside hq, hgone, fun t ht => by cases hstage.symm.trans ht⟩

end

/-! ## Every interleaving -/

/-- The states that the processes reach, from a destination with nothing in it. -/
def reached (acts : List (Act π Call)) : Crowd π Disk Place Answer :=
  run (package sha).next (.quiet .empty) acts

/-- The act returns a pin. -/
def PinsWith (taskId version : String) (w : Crowd π Disk Place Answer) (act : Act π Call) : Prop :=
  ∃ p, ((package sha).next w act).returned = w.returned ++ [(p, { call := .pin taskId version })]

/-- The act is the operation of an uninstallation of the version. -/
def Uninstalls (version : String) (w : Crowd π Disk Place Answer) (act : Act π Call) : Prop :=
  act = .operate ∧ ∃ p r, w.holder = some (p, r) ∧ r.uninstalls = some version

/-- The act leaves the file of the task's pin there. -/
def KeepsPin (taskId : String) (w : Crowd π Disk Place Answer) (act : Act π Call) : Prop :=
  ((package sha).next w act).files.pins.lookup taskId ≠ none

section
variable {sha} {π} {w : Crowd π Disk Place Answer} {act : Act π Call} {acts : List (Act π Call)}
  {taskId version : String}

/-- Where a pin is returned, the version has been verified, and the pin is there afterwards. -/
theorem pinned_with (h : (issuedRule sha π).Holds w) (hpin : PinsWith sha π taskId version w act) :
    verifyInstalled sha version (w.files.version version) = true ∧
      ((package sha).next w act).files.pins.lookup taskId = some (.whole ⟨taskId, version⟩) := by
  obtain ⟨p, hp⟩ := hpin
  obtain ⟨rfl, r, hholder, hdone⟩ := Sections.step_of_returned hp
  obtain ⟨hverified, -, hlookup⟩ := pin_returned (h.inside hholder).2 hdone
  rw [Sections.files_operate hholder]
  exact ⟨hverified, hlookup⟩

theorem pin_kept_next {f : Pin} (h : (issuedRule sha π).Holds w)
    (hpin : w.files.pins.lookup taskId = some (.whole f)) (hkeeps : KeepsPin sha π taskId w act) :
    ((package sha).next w act).files.pins.lookup taskId = some (.whole f) := by
  unfold KeepsPin at hkeeps
  cases act with
  | operate =>
    cases hholder : w.holder with
    | none => simpa [Sections.next, hholder] using hpin
    | some at' =>
      obtain ⟨p, r⟩ := at'
      rw [Sections.files_operate hholder] at hkeeps ⊢
      exact pin_stays (h.inside hholder).2 hpin hkeeps
  | call p c =>
    simp only [Sections.next]
    split <;> exact hpin
  | acquire p =>
    simp only [Sections.next]
    split <;> exact hpin
  | crash p => exact hpin

theorem pin_kept_run {f : Pin} (h : (issuedRule sha π).Holds w)
    (hpin : w.files.pins.lookup taskId = some (.whole f))
    (hkeeps : AllSteps (package sha).next (KeepsPin sha π taskId) w acts) :
    (run (package sha).next w acts).files.pins.lookup taskId = some (.whole f) := by
  have hrun := run_invariant_when
    (I := fun w => (issuedRule sha π).Holds w ∧ w.files.pins.lookup taskId = some (.whole f))
    ⟨h, hpin⟩ (fun w act hw hact => ⟨hw.1.next issued_allows, pin_kept_next hw.1 hw.2 hact⟩) hkeeps
  exact hrun.2

omit [DecidableEq π] in
theorem uninstalls_operate (h : w.holder.bind (·.2.uninstalls) = some version) :
    Uninstalls π version w .operate := by
  obtain ⟨⟨p, r⟩, hholder, hr⟩ := Option.bind_eq_some_iff.1 h
  exact ⟨rfl, p, r, hholder, hr⟩

end

/-- After a pin has been returned, and as long as its file is there, no operation of an
uninstallation changes the files of the version; and where a pin is returned, the version is as it
was installed, and it is not a tree that an uninstallation has touched. -/
theorem pinned_versions_are_kept (before : List (Act π Call)) :
    (∀ act taskId version, PinsWith sha π taskId version (reached sha π before) act →
      ∀ after, let w := (package sha).next (reached sha π before) act
      AllSteps (package sha).next (KeepsPin sha π taskId) w after →
        ∀ act', let w' := run (package sha).next w after
        (∃ u, Uninstalls π u w' act') →
          ((package sha).next w' act').files.version version = w'.files.version version) ∧
    ∀ act taskId version, PinsWith sha π taskId version (reached sha π before) act →
      verifyInstalled sha version ((reached sha π before).files.version version) = true ∧
      ∀ earlier act' later, before = earlier ++ act' :: later →
        Uninstalls π version (reached sha π earlier) act' → ∀ inode,
        Touches ((reached sha π earlier).files.version version)
          (((package sha).next (reached sha π earlier) act').files.version version) inode →
        ∃ t, ((reached sha π before).files.version version).root = some t ∧ t.inode ≠ inode := by
  have hreached (acts : List (Act π Call)) : (issuedRule sha π).Holds (reached sha π acts) :=
    holds_run ((issuedRule sha π).holds_quiet issued_empty)
  refine ⟨?_, ?_⟩
  · rintro act taskId version hpin after w hkeeps act' w' ⟨u, rfl, p, r, hholder, hr⟩
    have hw : (issuedRule sha π).Holds w := (hreached before).next issued_allows
    have hlookup := pin_kept_run hw (pinned_with (hreached before) hpin).2 hkeeps
    exact version_kept (holds_run hw) hholder hr (pinned_of_lookup hlookup)
  · intro act taskId version hpin
    have hverified := (pinned_with (hreached before) hpin).1
    refine ⟨hverified, ?_⟩
    rintro earlier act' later rfl ⟨rfl, p, r, hholder, hr⟩ inode htouches
    have hgone : (goneRule sha π inode version).Holds
        (reached sha π (earlier ++ .operate :: later)) := by
      have hnext : (goneRule sha π inode version).Holds
          ((package sha).next (reached sha π earlier) .operate) := by
        cases r with
        | uninstall u =>
          rw [Sections.files_operate hholder] at htouches
          rcases htouches with ⟨t, ht, -, hne⟩ | ⟨t, ht, -, hne⟩ <;> exact absurd ht hne
        | removing u removal =>
          cases hr
          exact holds_gone (hreached earlier) hholder htouches
        | _ => cases hr
      rw [reached, run_append, run_cons]
      exact run_invariant hnext fun _ _ hw => hw.next gone_allows
    obtain ⟨q, hq⟩ := hpin
    obtain ⟨-, r', hholder', -⟩ := Sections.step_of_returned hq
    obtain ⟨t, ht⟩ := root_of_verified hverified
    exact ⟨t, ht, (hgone.inside hholder').2.1.2 t ht⟩

end

def onlyBinary : Source := ⟨[], 1, true⟩

/-- A process installs a version. -/
def installing : List (Act Unit Call) :=
  [Act.call () (.install "1.0.0" onlyBinary), .acquire ()] ++ List.replicate 5 Act.operate

/-- It begins to uninstall it; 18 operations are the whole. -/
def uninstalling (operations : Nat) : List (Act Unit Call) :=
  [Act.call () (.uninstall "1.0.0"), .acquire ()] ++ List.replicate operations Act.operate

/-- It pins the version, up to the last operation. -/
def pinning : List (Act Unit Call) := [.call () (.pin "t" "1.0.0"), .acquire (), .operate]

def installedAgain : List (Act Unit Call) :=
  installing ++ uninstalling 18 ++ installing ++ pinning

/-- Another uninstallation finds the pin, and the first has not touched the tree that is pinned. -/
theorem pinned_versions_are_kept_there :
    let sha := fun m : Manifest => m.files.length
    let w := (package sha).next (reached sha Unit installedAgain) .operate
    let w' := run (package sha).next w (uninstalling 0)
    ((package sha).next w' .operate).files.version "1.0.0" = w'.files.version "1.0.0" ∧
      ∃ t, ((reached sha Unit installedAgain).files.version "1.0.0").root = some t ∧
        t.inode ≠ 0 := by
  intro sha w w'
  have hpins : PinsWith sha Unit "t" "1.0.0" (reached sha Unit installedAgain) .operate :=
    ⟨(), by decide +kernel⟩
  have hkeeps : AllSteps (package sha).next (KeepsPin sha Unit "t") w (uninstalling 0) :=
    ⟨by unfold KeepsPin; decide +kernel, by unfold KeepsPin; decide +kernel, trivial⟩
  have hlast : Uninstalls Unit "1.0.0" w' .operate := uninstalls_operate (by decide +kernel)
  -- the operation that takes the root into quarantine
  have hearlier : Uninstalls Unit "1.0.0" (reached sha Unit (installing ++ uninstalling 3))
      .operate :=
    uninstalls_operate (by decide +kernel)
  have htouches : Touches ((reached sha Unit (installing ++ uninstalling 3)).files.version "1.0.0")
      (((package sha).next (reached sha Unit (installing ++ uninstalling 3)) .operate).files.version
        "1.0.0") 0 :=
    touches_of_gone (by decide +kernel) (by decide +kernel)
  have hsplit : installedAgain = (installing ++ uninstalling 3) ++
      .operate :: (List.replicate 14 .operate ++ installing ++ pinning) := by decide +kernel
  have hkept := pinned_versions_are_kept sha Unit installedAgain
  have hfirst := hkept.1 .operate "t" "1.0.0" hpins (uninstalling 0) hkeeps .operate
    ⟨"1.0.0", hlast⟩
  have hsecond := (hkept.2 .operate "t" "1.0.0" hpins).2 _ _ _ hsplit hearlier 0 htouches
  exact ⟨by simpa only [w, w'] using hfirst, hsecond⟩

end Orchestrator.Install
