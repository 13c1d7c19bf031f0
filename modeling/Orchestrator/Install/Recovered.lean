import Orchestrator.Install.Kept
import Orchestrator.Install.Recovery

/-!
# Every crash is recovered from

Installations and uninstallations of any number of processes, of which none dies where it must not:
every version comes to rest in a state that the next call makes sense of.
-/
namespace Orchestrator.Install
open Library

/-! ## Stages -/

/-- A stage before its manifest is written. -/
structure Staged (t : Tree) : Prop where
  files : (t.files.map ManifestFile.path).Nodup
  dirs : t.dirs.Nodup

section
variable {t t' : Tree} {p : Path} {digest stamp inode : Nat} {version : String} {src : Source}
  {m : Manifest}

theorem nodup_inits (p : Path) : p.inits.Nodup := by
  induction p with
  | nil => simp
  | cons a p ih =>
    rw [List.inits_cons, List.nodup_cons]
    exact ⟨by simp, ih.map List.cons_injective⟩

theorem staged_empty : Staged { inode := inode } := ⟨.nil, .nil⟩

theorem Staged.mkdir (h : Staged t) (hp : ¬ t.has p) : Staged { t with dirs := t.dirs ++ [p] } where
  files := h.files
  dirs := by
    refine List.nodup_append.2 ⟨h.dirs, by simp, ?_⟩
    rintro d hd e he rfl
    obtain rfl := List.mem_singleton.1 he
    exact hp (.inr hd)

theorem Staged.addFile (h : Staged t) (hp : t.file? p = none) :
    Staged (t.addFile p digest stamp) where
  files := by
    change ((t.files ++ [(⟨p, digest, stamp⟩ : ManifestFile)]).map ManifestFile.path).Nodup
    rw [List.map_append, List.nodup_append]
    refine ⟨h.files, by simp, ?_⟩
    intro q hq e he
    obtain ⟨f, hf, rfl⟩ := List.mem_map.1 hq
    obtain rfl : e = p := by simpa using he
    exact file?_none hp hf
  dirs := by
    refine List.nodup_append.2 ⟨h.dirs, (nodup_inits p).filter _, ?_⟩
    rintro d hd e he rfl
    have hnot := (List.mem_filter.1 he).2
    simp [hd] at hnot

theorem file?_of_has (h : ¬ t.has p) : t.file? p = none := by
  by_contra hsome
  exact h (.inl (Option.isSome_iff_ne_none.2 hsome))

/-- The manifest of a stage is that of its files. -/
theorem finishStage_ok (h : Staged t) (hok : finishStage version src t stamp = .ok (t', m)) :
    ∃ base, Staged base ∧ m = stageManifest version src base ∧
      t' = { base with manifest := some m } := by
  unfold finishStage at hok
  split at hok
  · cases hok
  next base hbinary =>
    have hbase : Staged base := by
      unfold addBinary at hbinary
      split at hbinary
      · split at hbinary
        · cases hbinary
          exact h
        · cases hbinary
      next hnone =>
        split at hbinary
        · cases hbinary
        · cases hbinary
          exact h.addFile hnone
    split at hok
    · cases hok
    · cases hok
      exact ⟨base, hbase, rfl, rfl⟩

theorem Staged.unique (h : Staged t) : (stageManifest version src t).Unique :=
  ((List.perm_insertionSort _ t.files).map ManifestFile.path).nodup_iff.2 h.files

theorem Staged.whole (h : Staged t) (hdirs : ∀ d ∈ t.dirs, (stageManifest version src t).knows d) :
    Whole (stageManifest version src t)
      { t with manifest := some (stageManifest version src t) } where
  files := fun _ hf => (List.mem_insertionSort _).2 hf
  dirs := hdirs
  manifest := fun _ hm => (Option.some.inj hm).symm
  nodup := h.dirs
  all := fun _ hf => (List.mem_insertionSort _).1 hf
  present := rfl

end

/-! ## What is known at each place -/

section
variable (sha : Manifest → Nat)

/-- The version that an operation of the place may leave unsettled. -/
def Place.works : Place → Option String
  | .createReceipt version _ _ | .writeReceipt version _ _ | .removing version _ => some version
  | _ => none

/-- A version whose root is there, but not its receipt. -/
def Publishing (version : String) (m : Manifest) (x : VersionFiles) : Prop :=
  ∃ t, x.root = some t ∧ Whole m t ∧ m.Unique ∧ m.version = version ∧ x.quarantine = none ∧
    x.sinkClean ∧ x.intent = none

def KnownAt : Place → Disk → Prop
  | .copy version _ stage _, s => Staged stage ∧ (s.version version).root = none
  | .publish version src stage m, s => (∃ base, Staged base ∧ m = stageManifest version src base ∧
      stage = { base with manifest := some m }) ∧ (s.version version).root = none
  | .createReceipt version _ m, s =>
    Publishing version m (s.version version) ∧ (s.version version).receipt = none
  | .writeReceipt version _ m, s => Publishing version m (s.version version)
  | .removing version r, s => Doing sha version r (s.version version)
  | _, _ => True

def AllSettled (s : Disk) : Prop := ∀ version, Settled sha version (s.version version)

/-- All versions are settled but the one that the place works on. -/
def Inside (r : Place) (s : Disk) : Prop :=
  (∀ version, r.works ≠ some version → Settled sha version (s.version version)) ∧ KnownAt sha r s

/-- A process may die here: no record is written in part, no version is without its receipt, and
nothing is in the sink. -/
def Place.mayCrash : Place → Bool
  | .createReceipt _ _ _ | .writeReceipt _ _ _ => false
  | .removing _ r => r.mayCrash
  | _ => true

/-- A version is not published while there is an intent for it, nor with a directory in which there
is no file. -/
def mayPublish : Place → Disk → Prop
  | .publish version _ stage m, s =>
    (s.version version).intent = none ∧ ∀ d ∈ stage.dirs, m.knows d = true
  | _, _ => True

variable {sha}
variable {s s' : Disk} {r r' : Place} {version : String} {x : VersionFiles} {src : Source}
  {taskId : String} {a : Answer}

theorem allSettled_of_inside (h : Inside sha r s) (hr : r.works = none) : AllSettled sha s :=
  fun v => h.1 v (by simp [hr])

theorem Inside.crash (h : Inside sha r s) (hr : r.mayCrash = true) : AllSettled sha s := by
  intro v
  by_cases hv : r.works = some v
  · cases r with
    | removing version removal =>
      obtain rfl : version = v := by simpa [Place.works] using hv
      exact h.2.settled hr
    | createReceipt version src m => cases hr
    | writeReceipt version src m => cases hr
    | _ => cases hv
  · exact h.1 v hv

theorem AllSettled.inside (h : AllSettled sha s) {c : Call} : Inside sha c.start s :=
  ⟨fun v _ => h v, by cases c <;> trivial⟩

theorem AllSettled.congr (h : AllSettled sha s) (hs : s'.version = s.version) :
    AllSettled sha s' := by
  intro v
  rw [hs]
  exact h v

theorem settled_setVersion (h : ∀ v, v ≠ version → Settled sha v (s.version v))
    (hx : Settled sha version x) : AllSettled sha (s.setVersion version x) := by
  intro v
  by_cases hv : v = version
  · subst hv
    simpa [Disk.setVersion] using hx
  · simpa [Disk.setVersion, hv] using h v hv

/-- Inside a section on one version, the others are settled. -/
theorem inside_setVersion (h : ∀ v, v ≠ version → Settled sha v (s.version v))
    (hr : r.works = some version) (hknown : KnownAt sha r (s.setVersion version x)) :
    Inside sha r (s.setVersion version x) := by
  refine ⟨fun v hv => ?_, hknown⟩
  have hne : v ≠ version := by
    rintro rfl
    exact hv hr
  simpa [Disk.setVersion, hne] using h v hne

theorem inside_of_settled (h : AllSettled sha s) (hknown : KnownAt sha r s) : Inside sha r s :=
  ⟨fun v _ => h v, hknown⟩

theorem others_settled (h : Inside sha r s) (hr : r.works = some version) :
    ∀ v, v ≠ version → Settled sha v (s.version v) :=
  fun v hv => h.1 v fun heq => hv (Option.some.inj (heq.symm.trans hr))

/-- What an operation leaves: what is known where it leads to, or settled versions. -/
def Leaves (sha : Manifest → Nat) (result : Disk × Leads Place Answer) : Prop :=
  match result.2 with
  | .go r => Inside sha r result.1
  | .yield _ => False
  | .done _ => AllSettled sha result.1

theorem leaves_pin (h : AllSettled sha s) : Leaves sha (pinStep sha taskId version s) := by
  unfold pinStep
  dsimp only
  split
  · exact h
  split
  · exact h
  split
  · exact h
  · split <;> exact h
  · exact inside_of_settled (h.congr rfl) trivial

theorem leaves_unpin (h : AllSettled sha s) : Leaves sha (unpinStep taskId s) := by
  unfold unpinStep
  dsimp only
  split
  · exact h
  split
  · exact h
  · exact h
  · split
    · exact h
    · exact h.congr rfl

theorem leaves_install (h : AllSettled sha s) : Leaves sha (installStep version src s) := by
  unfold installStep
  dsimp only
  split
  · exact h
  split
  · exact h
  next hroot =>
    refine inside_of_settled (h.congr rfl) ⟨staged_empty, ?_⟩
    simpa using hroot

theorem leaves_copy {stage : Tree} {rest : List SourceEntry} (h : AllSettled sha s)
    (hstage : Staged stage) (hroot : (s.version version).root = none) :
    Leaves sha (copyStep version src stage s rest) := by
  unfold copyStep
  split
  · split
    · exact h
    next hhas => exact inside_of_settled h ⟨hstage.mkdir hhas, hroot⟩
  · split
    · exact h
    next hhas =>
      exact inside_of_settled (h.congr rfl) ⟨hstage.addFile (file?_of_has hhas), hroot⟩
  · exact h
  · split
    · exact h
    next hfinish => exact inside_of_settled (h.congr rfl) ⟨finishStage_ok hstage hfinish, hroot⟩

theorem leaves_publish {stage : Tree} {m : Manifest}
    (h : Inside sha (.publish version src stage m) s)
    (hmay : mayPublish (.publish version src stage m) s) :
    Leaves sha (onVersion version s (publishStep version src stage m)) := by
  obtain ⟨⟨base, hbase, rfl, rfl⟩, hroot⟩ := h.2
  obtain ⟨hintent, hdirs⟩ := hmay
  have hsettled := allSettled_of_inside h rfl
  have habsent : Absent (s.version version) := by
    cases hsettled version with
    | absent root quarantine sink receipt intent => exact ⟨root, quarantine, sink, receipt, intent⟩
    | installed m t root => cases root.symm.trans hroot
    | intended m t root => cases root.symm.trans hroot
    | quarantined m t root quarantine remains records => cases records.intent.symm.trans hintent
    | removed m root quarantine records => cases records.intent.symm.trans hintent
  unfold onVersion publishStep
  simp only [hroot, Option.isSome_none, Bool.false_eq_true, if_false]
  refine inside_setVersion (fun v _ => hsettled v) rfl ?_
  simp only [KnownAt, Disk.setVersion, Function.update_self]
  exact ⟨⟨_, rfl, hbase.whole hdirs, hbase.unique, rfl, habsent.quarantine, habsent.sink,
    habsent.intent⟩, habsent.receipt⟩

theorem leaves_createReceipt {m : Manifest} (h : Inside sha (.createReceipt version src m) s) :
    Leaves sha (onVersion version s (createReceiptStep version src m)) := by
  obtain ⟨⟨t, hroot, hwhole, hunique, hnamed, hquarantine, hsink, hintent⟩, hreceipt⟩ := h.2
  unfold onVersion createReceiptStep
  simp only [hreceipt, Option.isSome_none, Bool.false_eq_true, if_false]
  refine inside_setVersion (others_settled h rfl) rfl ?_
  simp only [KnownAt, Disk.setVersion, Function.update_self]
  exact ⟨t, hroot, hwhole, hunique, hnamed, hquarantine, hsink, hintent⟩

theorem leaves_writeReceipt {m : Manifest} (h : Inside sha (.writeReceipt version src m) s) :
    Leaves sha (onVersion version s (writeReceiptStep sha version src m)) := by
  obtain ⟨t, hroot, hwhole, hunique, hnamed, hquarantine, hsink, hintent⟩ := h.2
  refine settled_setVersion (others_settled h rfl) ?_
  exact .installed m t hroot hwhole hunique hnamed hquarantine hsink rfl hintent

theorem leaves_uninstall (h : AllSettled sha s) : Leaves sha (s, uninstallStep sha version s) := by
  unfold uninstallStep
  split
  · exact h
  rcases begins (h version) with habsent | ⟨r, hbegin, hdoing, -⟩
  · have hbegin : beginRemoval sha version (s.version version) =
        .done (.retained, some .changedFiles) := by
      simp [beginRemoval, readUninstallIntent, habsent.intent, habsent.receipt]
    rw [hbegin]
    exact h
  · rw [hbegin]
    exact inside_of_settled h hdoing

theorem leaves_removing {removal : Removal} (h : Inside sha (.removing version removal) s) :
    Leaves sha (packageStep sha (.removing version removal) s) := by
  rcases doing_step h.2 with ⟨r', x', hstep, hdoing⟩ | ⟨x', hstep, habsent⟩
  · simp only [packageStep, onVersion, hstep]
    refine inside_setVersion (others_settled h rfl) rfl ?_
    simpa only [KnownAt, Disk.setVersion, Function.update_self] using hdoing
  · simp only [packageStep, onVersion, hstep]
    exact settled_setVersion (others_settled h rfl) habsent.settled

theorem leaves_step (h : Inside sha r s) (hmay : mayPublish r s) :
    Leaves sha (packageStep sha r s) := by
  cases r with
  | pin taskId version => exact leaves_pin (allSettled_of_inside h rfl)
  | writePin taskId version => exact (allSettled_of_inside h rfl).congr rfl
  | unpin taskId => exact leaves_unpin (allSettled_of_inside h rfl)
  | install version src => exact leaves_install (allSettled_of_inside h rfl)
  | copy version src stage rest =>
    exact leaves_copy (allSettled_of_inside h rfl) h.2.1 h.2.2
  | publish version src stage m => exact leaves_publish h hmay
  | createReceipt version src m => exact leaves_createReceipt h
  | writeReceipt version src m => exact leaves_writeReceipt h
  | uninstall version => exact leaves_uninstall (allSettled_of_inside h rfl)
  | removing version r => exact leaves_removing h

/-! ## Calls that nobody disturbs -/

@[simp]
theorem setVersion_setVersion {x' : VersionFiles} :
    (s.setVersion version x).setVersion version x' = s.setVersion version x' := by
  simp [Disk.setVersion]

/-- A removal alone is a removal on the disk. -/
theorem returns_removing {removal : Removal} {x' : VersionFiles} {b : Stopped}
    (h : (Install.removal sha).Returns removal (s.version version) x' b) :
    (package sha).Returns (.removing version removal) s (s.setVersion version x')
      { call := .uninstall version, status := b.1, error := b.2 } := by
  obtain ⟨n, hn⟩ := h
  induction n generalizing s removal with
  | zero => cases hn
  | succ n ih =>
    have hpackage : (package sha).step (.removing version removal) s =
        (s.setVersion version (removalStep sha removal (s.version version)).1,
          liftRemoval version (removalStep sha removal (s.version version)).2) := rfl
    unfold Sections.complete at hn
    split at hn
    next x₁ c hstep =>
      obtain ⟨rfl, rfl⟩ := Prod.mk.inj (Option.some_inj.1 hn)
      have hstep : removalStep sha removal (s.version version) = (x₁, .done c) := hstep
      rw [hstep] at hpackage
      exact (Sections.returns_done hpackage).2 ⟨rfl, rfl⟩
    next x₁ r₁ hstep =>
      have hstep : removalStep sha removal (s.version version) = (x₁, .go r₁) := hstep
      rw [hstep] at hpackage
      have hrest := ih (s := s.setVersion version x₁) (by simpa [Disk.setVersion] using hn)
      rw [setVersion_setVersion] at hrest
      exact (Sections.returns_go hpackage).2 hrest
    next x₁ r₁ hstep =>
      have hstep : removalStep sha removal (s.version version) = (x₁, .yield r₁) := hstep
      rw [hstep] at hpackage
      have hrest := ih (s := s.setVersion version x₁) (by simpa [Disk.setVersion] using hn)
      rw [setVersion_setVersion] at hrest
      exact (Sections.returns_yield hpackage).2 hrest

/-- Unless nothing is there, a version that is not pinned is removed by one call. -/
theorem uninstall_returns (h : AllSettled sha s) (hpins : checkPins version s.pins = none) :
    Absent (s.version version) ∨ ∃ x', Absent x' ∧
      (package sha).Returns (.uninstall version) s (s.setVersion version x')
        { call := .uninstall version, status := some .removed } := by
  rcases begins (h version) with habsent | ⟨r, hbegin, -, x', hreturns, habsent⟩
  · exact .inl habsent
  · refine .inr ⟨x', habsent, ?_⟩
    have hstep : (package sha).step (.uninstall version) s = (s, .go (.removing version r)) := by
      simp [package, packageStep, uninstallStep, hpins, hbegin, liftRemoval]
    exact (Sections.returns_go hstep).2 (returns_removing hreturns)

/-- The stage that a package is copied to, and its manifest. -/
def stages (version : String) (src : Source) :
    Tree → Nat → List SourceEntry → Except InstallError (Tree × Manifest)
  | stage, stamp, [] => finishStage version src stage stamp
  | stage, stamp, .dir p :: rest =>
    if stage.has p then .error .fileExists
    else stages version src { stage with dirs := stage.dirs ++ [p] } stamp rest
  | stage, stamp, .file p digest :: rest =>
    if stage.has p then .error .fileExists
    else stages version src (stage.addFile p digest stamp) (stamp + 1) rest
  | _, _, .other _ :: _ => .error .sourceUnsafe

/-- A package that can be installed, wherever its files come to lie. -/
def Installable (version : String) (src : Source) : Prop :=
  src.valid = true ∧ ∀ inode stamp, ∃ r,
    stages version src { inode := inode } stamp src.entries = .ok r

/-- From a stage on nothing fails where nothing is. -/
theorem publish_returns {stage : Tree} {m : Manifest} (h : Absent (s.version version)) :
    ∃ s', (package sha).Returns (.publish version src stage m) s s'
      { call := .install version src } := by
  have hpublish : (package sha).step (.publish version src stage m) s =
      (s.setVersion version { s.version version with root := some stage },
        .go (.createReceipt version src m)) := by
    simp [package, packageStep, onVersion, publishStep, h.root]
  have hcreate : (package sha).step (.createReceipt version src m)
      (s.setVersion version { s.version version with root := some stage }) =
      (s.setVersion version { s.version version with root := some stage, receipt := some .invalid },
        .go (.writeReceipt version src m)) := by
    simp [package, packageStep, onVersion, createReceiptStep, Disk.setVersion, h.receipt]
  obtain ⟨s', hlast⟩ : ∃ s', (package sha).Returns (.writeReceipt version src m)
      (s.setVersion version { s.version version with root := some stage, receipt := some .invalid })
      s' { call := .install version src } :=
    ⟨_, 1, rfl⟩
  exact ⟨s', (Sections.returns_go hpublish).2 ((Sections.returns_go hcreate).2 hlast)⟩

/-- Along the entries of the package, the files of the version stay as they are. -/
theorem copy_returns {stage stage' : Tree} {rest : List SourceEntry} {m : Manifest}
    (h : stages version src stage s.fresh rest = .ok (stage', m))
    (habsent : Absent (s.version version)) :
    ∃ s', (package sha).Returns (.copy version src stage rest) s s'
      { call := .install version src } := by
  induction rest generalizing s stage with
  | nil =>
    have hstep : (package sha).step (.copy version src stage []) s =
        ({ s with fresh := s.fresh + 1 }, .go (.publish version src stage' m)) := by
      have hfinish : finishStage version src stage s.fresh = .ok (stage', m) := h
      simp only [package, packageStep, copyStep, hfinish]
    obtain ⟨s', hs'⟩ := @publish_returns sha { s with fresh := s.fresh + 1 } _ src stage' m habsent
    exact ⟨s', (Sections.returns_go hstep).2 hs'⟩
  | cons entry rest ih =>
    cases entry with
    | dir p =>
      unfold stages at h
      split at h
      · cases h
      next hhas =>
        have hstep : (package sha).step (.copy version src stage (.dir p :: rest)) s =
            (s, .go (.copy version src { stage with dirs := stage.dirs ++ [p] } rest)) := by
          simp only [package, packageStep, copyStep, hhas, if_false]
        obtain ⟨s', hs'⟩ := ih h habsent
        exact ⟨s', (Sections.returns_go hstep).2 hs'⟩
    | file p digest =>
      unfold stages at h
      split at h
      · cases h
      next hhas =>
        have hstep : (package sha).step (.copy version src stage (.file p digest :: rest)) s =
            ({ s with fresh := s.fresh + 1 },
              .go (.copy version src (stage.addFile p digest s.fresh) rest)) := by
          simp only [package, packageStep, copyStep, hhas, if_false]
        obtain ⟨s', hs'⟩ := ih (s := { s with fresh := s.fresh + 1 }) h habsent
        exact ⟨s', (Sections.returns_go hstep).2 hs'⟩
    | other p => cases h

theorem install_returns (h : Absent (s.version version)) (hsrc : Installable version src) :
    ∃ s', (package sha).Returns (.install version src) s s' { call := .install version src } := by
  obtain ⟨hvalid, hstages⟩ := hsrc
  obtain ⟨⟨stage, m⟩, hstage⟩ := hstages s.fresh (s.fresh + 1)
  have hstep : (package sha).step (.install version src) s =
      ({ s with fresh := s.fresh + 1 },
        .go (.copy version src { inode := s.fresh } src.entries)) := by
    simp [package, packageStep, installStep, hvalid, h.root]
  obtain ⟨s', hs'⟩ := @copy_returns sha { s with fresh := s.fresh + 1 } _ _ _ _ _ _ hstage h
  exact ⟨s', (Sections.returns_go hstep).2 hs'⟩

/-! ## Every run -/

variable (π : Type)

variable (sha) in
/-- At rest every version is settled. -/
def recoverRule : Rule π (package sha) where
  waits := waitsAtStart
  quiet s _ := AllSettled sha s
  inside r s _ := Inside sha r s
  mayCrash r _ := r.mayCrash = true
  mayStep := mayPublish
  start := waits_start sha
  enter := by
    rintro _ s l ⟨c, rfl⟩ h
    exact h.inside
  crash := fun h hr => h.crash hr
  go := fun {r s l s' r'} h hmay hstep => by
    have heq : packageStep sha r s = (s', .go r') := hstep
    have hleaves := leaves_step h hmay
    rw [heq] at hleaves
    exact hleaves
  yield := fun {r s l s' r'} h hmay hstep => by
    have heq : packageStep sha r s = (s', .yield r') := hstep
    have hleaves := leaves_step h hmay
    rw [heq] at hleaves
    exact hleaves.elim
  done := fun {r s l s' a} h hmay hstep _ => by
    have heq : packageStep sha r s = (s', .done a) := hstep
    have hleaves := leaves_step h hmay
    rw [heq] at hleaves
    exact hleaves

theorem allSettled_empty : AllSettled sha .empty := fun _ =>
  .absent rfl rfl (.inl rfl) rfl rfl

theorem status_of_begin {b : Stopped} {x : VersionFiles}
    (h : beginRemoval sha version x = .done b) :
    b.1 ≠ .removed := by
  unfold beginRemoval at h
  grind

theorem call_of_copy {stage : Tree} {rest : List SourceEntry}
    (h : (copyStep version src stage s rest).2 = .done a) : a.call = .install version src := by
  unfold copyStep at h
  grind

/-- The status of a removal is returned at the end of one. -/
theorem absent_of_removed {e : Option InstallError} (h : Inside sha r s)
    (hdone : (packageStep sha r s).2 =
      .done { call := .uninstall version, status := some .removed, error := e }) :
    Absent ((packageStep sha r s).1.version version) := by
  cases r with
  | pin taskId version =>
    simp only [packageStep, pinStep] at hdone
    grind
  | writePin taskId version => cases hdone
  | unpin taskId =>
    simp only [packageStep, unpinStep] at hdone
    grind
  | install version src =>
    simp only [packageStep, installStep] at hdone
    grind
  | copy version src stage rest => cases call_of_copy hdone
  | publish version src stage m =>
    simp only [packageStep, onVersion, publishStep] at hdone
    grind
  | createReceipt version src m =>
    simp only [packageStep, onVersion, createReceiptStep] at hdone
    grind
  | writeReceipt version src m => cases hdone
  | uninstall v =>
    simp only [packageStep, uninstallStep] at hdone
    split at hdone
    · grind
    · cases hbegin : beginRemoval sha v (s.version v) with
      | done b =>
        have hstatus := status_of_begin hbegin
        rw [hbegin] at hdone
        simp only [liftRemoval, Leads.done.injEq, Answer.mk.injEq, Option.some_inj] at hdone
        exact absurd hdone.2.1 hstatus
      | go r => rw [hbegin] at hdone; cases hdone
      | yield r => rw [hbegin] at hdone; cases hdone
  | removing v removal =>
    rcases doing_step h.2 with ⟨r', x', hstep, -⟩ | ⟨x', hstep, habsent⟩
    · simp only [packageStep, onVersion, hstep] at hdone
      cases hdone
    · simp only [packageStep, onVersion, hstep] at hdone ⊢
      cases hdone
      simpa using habsent

end

/-! ## Every run -/

section
variable (sha : Manifest → Nat) (π : Type) [DecidableEq π]

/-- A sequence of complete calls, with what they return. -/
def Series : List (Call × Answer) → Disk → Disk → Prop
  | [], s, s' => s = s'
  | (c, a) :: rest, s, s' => ∃ s₁, (package sha).Returns c.start s s₁ a ∧ Series rest s₁ s'

/-- What a call about the version returns when it succeeds. -/
inductive Succeeds (version : String) : Call × Answer → Prop where
  | install (src : Source) :
    Succeeds version (.install version src, { call := .install version src })
  | uninstall : Succeeds version
      (.uninstall version, { call := .uninstall version, status := some .removed })

/-- Whatever has happened: a version can be installed, after one that is in the way is uninstalled;
a version that is installed can be uninstalled; and what is returned as removed is gone. -/
structure Recovers (w : Crowd π Disk Place Answer) : Prop where
  installs : w.holder = none → ∀ version src, checkPins version w.files.pins = none →
    Installable version src → ∃ before s', (∀ call ∈ before, Succeeds version call) ∧
      Series sha (before ++ [(.install version src, { call := .install version src })]) w.files s'
  uninstalls : w.holder = none → ∀ version, checkPins version w.files.pins = none →
    verifyInstalled sha version (w.files.version version) = true → ∃ s',
      Series sha [(.uninstall version, { call := .uninstall version, status := some .removed })]
        w.files s'
  removed : ∀ act p version e, ((package sha).next w act).returned =
      w.returned ++ [(p, { call := .uninstall version, status := some .removed, error := e })] →
    let x := ((package sha).next w act).files.version version
    x.root = none ∧ x.quarantine = none ∧ x.receipt = none

section
variable {sha π}
variable {w : Crowd π Disk Place Answer} {version : String}

theorem installs_of_settled {s : Disk} {src : Source} (h : AllSettled sha s)
    (hpins : checkPins version s.pins = none) (hsrc : Installable version src) :
    ∃ before s', (∀ call ∈ before, Succeeds version call) ∧
      Series sha (before ++ [(.install version src, { call := .install version src })]) s s' := by
  rcases uninstall_returns h hpins with habsent | ⟨x', habsent, hreturns⟩
  · obtain ⟨s', hs'⟩ := @install_returns sha _ _ _ habsent hsrc
    exact ⟨[], s', fun _ hcall => absurd hcall List.not_mem_nil, s', hs', rfl⟩
  · have habsent' : Absent ((s.setVersion version x').version version) := by
      simpa using habsent
    obtain ⟨s', hs'⟩ := @install_returns sha _ _ _ habsent' hsrc
    refine ⟨[(.uninstall version, _)], s', ?_, _, hreturns, s', hs', rfl⟩
    intro call hcall
    obtain rfl := List.mem_singleton.1 hcall
    exact .uninstall

theorem uninstalls_of_settled {s : Disk} (h : AllSettled sha s)
    (hpins : checkPins version s.pins = none)
    (hverified : verifyInstalled sha version (s.version version) = true) : ∃ s',
      Series sha [(.uninstall version, { call := .uninstall version, status := some .removed })]
        s s' := by
  rcases uninstall_returns h hpins with habsent | ⟨x', -, hreturns⟩
  · obtain ⟨t, ht⟩ := root_of_verified hverified
    cases ht.symm.trans habsent.root
  · exact ⟨_, _, hreturns, rfl⟩

theorem recovers_of_holds (h : (recoverRule sha π).Holds w) : Recovers sha π w where
  installs := fun hholder _ _ => installs_of_settled (h.quiet hholder)
  uninstalls := fun hholder _ => uninstalls_of_settled (h.quiet hholder)
  removed := by
    intro act p version e hreturned
    obtain ⟨rfl, r, hholder, hdone⟩ := Sections.step_of_returned hreturned
    have habsent := absent_of_removed (h.inside hholder) hdone
    rw [Sections.files_operate hholder]
    exact ⟨habsent.root, habsent.quarantine, habsent.receipt⟩

end

/-- As long as no process dies where the rule does not let it, and none publishes where the rule
does not let it, every crash is recovered from. -/
theorem crashes_are_recovered_from (acts : List (Act π Call))
    (hacts : AllSteps (package sha).next (recoverRule sha π).Allows (.quiet .empty) acts) :
    Recovers sha π (reached sha π acts) :=
  recovers_of_holds (((recoverRule sha π).holds_quiet allSettled_empty).run hacts)

end

/-- A process dies while it copies a package. -/
theorem crashes_are_recovered_from_while_copying :
    Recovers (fun m => m.files.length) Unit (reached (fun m => m.files.length) Unit
      [.call () (.install "1.0.0" onlyBinary), .acquire (), .operate, .crash ()]) :=
  crashes_are_recovered_from _ Unit _ ⟨trivial, trivial, fun _ _ hr => by cases hr; trivial,
    fun _ hr => by cases hr; rfl, trivial⟩

/-- An uninstallation dies when all that is left of the version is the intent, and the version is
installed again. -/
def installAgain : List (Act Unit Call) :=
  let install : List (Act Unit Call) :=
    .call () (.install "1.0.0" onlyBinary) :: .acquire () :: List.replicate 5 .operate
  let uninstall : List (Act Unit Call) :=
    .call () (.uninstall "1.0.0") :: .acquire () :: List.replicate 17 .operate
  install ++ uninstall ++ .crash () :: install

/-- The version is as it was installed, and no call removes it. -/
theorem old_intent_keeps_the_version :
    ¬ Recovers (fun m => m.files.length) Unit
      (reached (fun m => m.files.length) Unit installAgain) := by
  intro h
  obtain ⟨s', s₁, hreturns, -⟩ := h.uninstalls rfl "1.0.0" (by decide +kernel) (by decide +kernel)
  have hstatus : ((package fun m => m.files.length).complete 2 (.uninstall "1.0.0")
      (reached (fun m => m.files.length) Unit installAgain).files).map (fun x => x.2.status) =
      some (some .retained) := by
    decide +kernel
  obtain ⟨x, hx, hretained⟩ := Option.map_eq_some_iff.1 hstatus
  cases hreturns.eq_of_complete hx
  cases hretained

end Orchestrator.Install
