import Orchestrator.Install.Package
import Mathlib.Data.String.Basic

/-!
# Recovery from crashes

What a version may look like while no process works on it, provided that no process has died where
the next call cannot make sense of what is left.
-/
namespace Orchestrator.Install
open Library

/-! ## Trees that belong to a manifest -/

/-- No two files of a manifest have one path. -/
def Manifest.Unique (m : Manifest) : Prop := (m.files.map ManifestFile.path).Nodup

/-- What is left of an installed tree. -/
structure Remains (m : Manifest) (t : Tree) : Prop where
  files : ∀ f ∈ t.files, f ∈ m.files
  dirs : ∀ d ∈ t.dirs, m.knows d = true
  manifest : ∀ m', t.manifest = some m' → m' = m
  nodup : t.dirs.Nodup

/-- The whole of it. -/
structure Whole (m : Manifest) (t : Tree) : Prop extends Remains m t where
  all : ∀ f ∈ m.files, f ∈ t.files
  present : t.manifest = some m

section
variable {m : Manifest} {t : Tree} {f g : ManifestFile} {p d : Path}

theorem Manifest.Unique.eq (h : m.Unique) (hf : f ∈ m.files) (hg : g ∈ m.files)
    (hp : f.path = g.path) : f = g :=
  List.inj_on_of_nodup_map h hf hg hp

theorem file?_some (h : t.file? p = some f) : f ∈ t.files ∧ f.path = p :=
  ⟨List.mem_of_find?_eq_some h, by simpa using List.find?_some h⟩

theorem file?_none (h : t.file? p = none) (hf : f ∈ t.files) : f.path ≠ p := by
  simpa using List.find?_eq_none.1 h f hf

theorem Remains.unchanged (h : Remains m t) (hunique : m.Unique) {allowMissing : Bool}
    (hall : allowMissing = true ∨ ∀ f ∈ m.files, f ∈ t.files) :
    changedFiles t m allowMissing = [] := by
  have hchanged : m.files.filter (t.changed allowMissing) = [] := by
    refine List.filter_eq_nil_iff.2 fun f hf => ?_
    unfold Tree.changed
    cases hfile : t.file? f.path with
    | none =>
      rcases hall with rfl | hall
      · simp
      · exact absurd rfl (file?_none hfile (hall f hf))
    | some g =>
      obtain ⟨hg, hpath⟩ := file?_some hfile
      obtain rfl := hunique.eq (h.files g hg) hf hpath
      simp [matchesManifest]
  have hdirs : t.dirs.filter (fun d => ! m.knows d) = [] :=
    List.filter_eq_nil_iff.2 fun d hd => by simp [h.dirs d hd]
  have hunknown : t.files.filter (fun f => ! m.files.any fun g => g.path = f.path) = [] := by
    refine List.filter_eq_nil_iff.2 fun f hf => ?_
    simpa using ⟨f, h.files f hf, rfl⟩
  simp only [changedFiles]
  rw [hchanged, hdirs, hunknown]
  rfl

theorem Remains.eraseFile (h : Remains m t) : Remains m (t.eraseFile p) where
  files := fun f hf => h.files f (List.mem_of_mem_filter hf)
  dirs := h.dirs
  manifest := h.manifest
  nodup := h.nodup

theorem Remains.eraseManifest (h : Remains m t) : Remains m { t with manifest := none } where
  files := h.files
  dirs := h.dirs
  manifest := nofun
  nodup := h.nodup

theorem Remains.eraseDir (h : Remains m t) : Remains m (t.eraseDir d) where
  files := fun f hf => h.files f (List.mem_of_mem_filter hf)
  dirs := fun d hd => h.dirs d (List.mem_of_mem_filter hd)
  manifest := h.manifest
  nodup := h.nodup.filter _

end

/-! ## Versions at rest -/

section
variable (sha : Manifest → Nat)

def VersionFiles.sinkClean (x : VersionFiles) : Prop := x.sink = none ∨ x.sink = some []

/-- The records of a version that is being removed. -/
structure Recorded (version : String) (m : Manifest) (x : VersionFiles) : Prop where
  named : m.version = version
  unique : m.Unique
  intent : x.intent = some (.whole ⟨version, sha m, m⟩)

/-- A version while no process works on it. -/
inductive Settled (version : String) (x : VersionFiles) : Prop where
  /-- Nothing is there, but perhaps an empty sink. -/
  | absent (root : x.root = none) (quarantine : x.quarantine = none) (sink : x.sinkClean)
      (receipt : x.receipt = none) (intent : x.intent = none)
  | installed (m : Manifest) (t : Tree) (root : x.root = some t) (whole : Whole m t)
      (unique : m.Unique) (named : m.version = version) (quarantine : x.quarantine = none)
      (sink : x.sinkClean) (receipt : x.receipt = some (.whole ⟨version, sha m⟩))
      (intent : x.intent = none)
  /-- An uninstallation has left its intent, but not moved the root. -/
  | intended (m : Manifest) (t : Tree) (root : x.root = some t) (whole : Whole m t)
      (records : Recorded sha version m x) (quarantine : x.quarantine = none) (sink : x.sinkClean)
      (receipt : x.receipt = some (.whole ⟨version, sha m⟩))
  | quarantined (m : Manifest) (t : Tree) (root : x.root = none)
    (quarantine : x.quarantine = some t)
      (remains : Remains m t) (records : Recorded sha version m x) (sink : x.sinkClean)
      (receipt : x.receipt = some (.whole ⟨version, sha m⟩))
  /-- Only records are left. -/
  | removed (m : Manifest) (root : x.root = none) (quarantine : x.quarantine = none)
      (records : Recorded sha version m x) (sink : x.sinkClean)
      (receipt : x.receipt = none ∨ x.receipt = some (.whole ⟨version, sha m⟩))

/-! ## Versions that are being removed -/

/-- What is in quarantine while its entries are removed one by one: what is still to be moved covers
it, and is there unless the intent was found. -/
structure Moving (version : String) (u : Pending) (rest : List Owned) (dirs : List Path)
    (m : Manifest) (t : Tree) (x : VersionFiles) : Prop where
  pending : u.intent = ⟨version, sha m, m⟩
  records : Recorded sha version m x
  root : x.root = none
  quarantine : x.quarantine = some t
  receipt : x.receipt = some (.whole ⟨version, sha m⟩)
  remains : Remains m t
  filesLeft : ∀ f ∈ t.files, Owned.file f ∈ rest
  manifestLeft : t.manifest ≠ none → Owned.manifest ∈ rest
  dirsLeft : ∀ d ∈ t.dirs, d ∈ dirs
  sorted : dirs.Pairwise Deeper
  known : ∀ f, Owned.file f ∈ rest → f ∈ m.files
  there : u.resumed = false → rest.Nodup ∧ (∀ f, Owned.file f ∈ rest → f ∈ t.files) ∧
    (Owned.manifest ∈ rest → t.manifest ≠ none) ∧ dirs.Nodup ∧ ∀ d ∈ dirs, d ∈ t.dirs

/-- Only the records are left, and they are those of the intent. -/
structure Emptied (version : String) (u : Pending) (x : VersionFiles) : Prop where
  root : x.root = none
  quarantine : x.quarantine = none
  records : ∃ m, u.intent = ⟨version, sha m, m⟩ ∧ Recorded sha version m x ∧
    (x.receipt = none ∨ x.receipt = some (.whole ⟨version, sha m⟩))

/-- A version at the places of its removal. -/
def Doing (version : String) : Removal → VersionFiles → Prop
  | .createIntent i, x => ∃ m t, i = ⟨version, sha m, m⟩ ∧ x.root = some t ∧ Whole m t ∧ m.Unique ∧
      m.version = version ∧ x.quarantine = none ∧ x.sinkClean ∧
      x.receipt = some (.whole ⟨version, sha m⟩) ∧ x.intent = none
  | .writeIntent i, x => ∃ m t, i = ⟨version, sha m, m⟩ ∧ x.root = some t ∧ Whole m t ∧ m.Unique ∧
      m.version = version ∧ x.quarantine = none ∧ x.sinkClean ∧
      x.receipt = some (.whole ⟨version, sha m⟩)
  | .quarantine u, x => Settled sha version x ∧ x.intent = some (.whole u.intent) ∧
      (u.resumed = false → x.root ≠ none)
  | .openSink u, x => ∃ m t, u.intent = ⟨version, sha m, m⟩ ∧ Recorded sha version m x ∧
      x.root = none ∧ x.quarantine = some t ∧ x.receipt = some (.whole ⟨version, sha m⟩) ∧
      Remains m t ∧ x.sinkClean ∧ (u.resumed = false → Whole m t)
  | .move u rest dirs, x => x.sink = some [] ∧ ∃ m t, Moving sha version u rest dirs m t x
  | .unlink u rest dirs, x => (∃ e, x.sink = some [e]) ∧ ∃ m t, Moving sha version u rest dirs m t x
  | .moveDir u dirs, x => x.sink = some [] ∧ ∃ m t, Moving sha version u [] dirs m t x
  | .unlinkDir u dirs, x => (∃ d t, t.isEmpty = true ∧ x.sink = some [.dir d t]) ∧
      ∃ m t, Moving sha version u [] dirs m t x
  | .moveRoot u, x => x.sink = some [] ∧ ∃ m t, Moving sha version u [] [] m t x
  | .unlinkRoot u, x => (∃ t, t.isEmpty = true ∧ x.sink = some [.root t]) ∧ Emptied sha version u x
  | .removeSink u, x => x.sink = some [] ∧ Emptied sha version u x
  | .removeReceipt u, x => x.sinkClean ∧ Emptied sha version u x
  | .removeIntent u, x => x.sinkClean ∧ Emptied sha version u x ∧ x.receipt = none

/-- The files of a version that is gone; the sink may be left. -/
structure Absent (x : VersionFiles) : Prop where
  root : x.root = none
  quarantine : x.quarantine = none
  sink : x.sinkClean
  receipt : x.receipt = none
  intent : x.intent = none

section
variable {sha} {version : String} {u : Pending} {i : Intent} {x : VersionFiles} {m : Manifest}
  {t : Tree} {rest : List Owned} {dirs : List Path} {o : Owned} {d : Path}

theorem Absent.settled (h : Absent x) : Settled sha version x :=
  .absent h.root h.quarantine h.sink h.receipt h.intent

/-! ### Operation by operation -/

theorem do_createIntent (h : Doing sha version (.createIntent i) x) :
    ∃ x', removalStep sha (.createIntent i) x = (x', .go (.writeIntent i)) ∧
      Doing sha version (.writeIntent i) x' := by
  obtain ⟨m, t, rfl, hroot, hwhole, hunique, hnamed, hquarantine, hsink, hreceipt, hintent⟩ := h
  refine ⟨{ x with intent := some .invalid }, ?_, m, t, rfl, hroot, hwhole, hunique, hnamed,
    hquarantine, hsink, hreceipt⟩
  simp [removalStep, hintent]

theorem do_writeIntent (h : Doing sha version (.writeIntent i) x) :
    ∃ x', removalStep sha (.writeIntent i) x = (x', .go (.quarantine ⟨i, false⟩)) ∧
      Doing sha version (.quarantine ⟨i, false⟩) x' := by
  obtain ⟨m, t, rfl, hroot, hwhole, hunique, hnamed, hquarantine, hsink, hreceipt⟩ := h
  refine ⟨_, rfl, ?_, rfl, fun _ => ?_⟩
  · exact .intended m t hroot hwhole ⟨hnamed, hunique, rfl⟩ hquarantine hsink hreceipt
  · change x.root ≠ none
    simp [hroot]

theorem do_quarantine (h : Doing sha version (.quarantine u) x) :
    (∃ x', removalStep sha (.quarantine u) x = (x', .go (.openSink u)) ∧
      Doing sha version (.openSink u) x') ∨
    removalStep sha (.quarantine u) x = (x, .go (.removeReceipt u)) ∧
      Doing sha version (.removeReceipt u) x := by
  obtain ⟨hsettled, hu, hfresh⟩ := h
  cases hsettled with
  | absent root quarantine sink receipt intent => cases intent.symm.trans hu
  | installed m t root whole unique named quarantine sink receipt intent =>
    cases intent.symm.trans hu
  | intended m t root whole records quarantine sink receipt =>
    have hintent : u.intent = ⟨version, sha m, m⟩ := by
      have heq := records.intent.symm.trans hu
      simpa using heq.symm
    have hunchanged : changedFiles t u.intent.manifest u.resumed = [] := by
      rw [hintent]
      exact whole.unchanged records.unique (.inr whole.all)
    refine .inl ⟨{ x with root := none, quarantine := some t }, ?_, m, t, hintent,
      ⟨records.named, records.unique, records.intent⟩, rfl, rfl, receipt, whole.toRemains, sink,
      fun _ => whole⟩
    simp [removalStep, quarantineStep, root, quarantine, hunchanged]
  | quarantined m t root quarantine remains records sink receipt =>
    have hresumed : u.resumed = true := by
      by_contra hnot
      exact hfresh (by simpa using hnot) root
    have hintent : u.intent = ⟨version, sha m, m⟩ := by
      have heq := records.intent.symm.trans hu
      simpa using heq.symm
    have hunchanged : changedFiles t u.intent.manifest u.resumed = [] := by
      rw [hintent]
      exact remains.unchanged records.unique (.inl hresumed)
    refine .inl ⟨x, ?_, m, t, hintent, records, root, quarantine, receipt, remains, sink, ?_⟩
    · simp [removalStep, quarantineStep, root, quarantine, hunchanged]
    · simp [hresumed]
  | removed m root quarantine records sink receipt =>
    have hintent : u.intent = ⟨version, sha m, m⟩ := by
      have heq := records.intent.symm.trans hu
      simpa using heq.symm
    refine .inr ⟨?_, sink, root, quarantine, m, hintent, records, receipt⟩
    simp [removalStep, quarantineStep, root, quarantine]

/-! The inventory covers what is in quarantine, and the directories are in order. -/

instance : Std.Total Deeper where
  total p q := by
    rcases Nat.lt_trichotomy p.length q.length with h | h | h
    · exact .inr (.inl h)
    · rcases le_total (pathText q) (pathText p) with hle | hle
      · exact .inl (.inr ⟨h.symm, hle⟩)
      · exact .inr (.inr ⟨h, hle⟩)
    · exact .inl (.inl h)

instance : IsTrans Path Deeper where
  trans p q r hpq hqr := by
    rcases hpq with hpq | ⟨hpq, hle⟩ <;> rcases hqr with hqr | ⟨hqr, hle'⟩
    · exact .inl (hqr.trans hpq)
    · exact .inl (hqr ▸ hpq)
    · exact .inl (hpq ▸ hqr)
    · exact .inr ⟨hqr.trans hpq, hle'.trans hle⟩

theorem mem_captureKnown : d ∈ captureKnownDirectories t m ↔ d ∈ t.dirs ∧ m.knows d = true := by
  rw [captureKnownDirectories, List.mem_insertionSort, List.mem_filter]

theorem file_mem_inventory {f : ManifestFile} :
    Owned.file f ∈ inventory u t ↔ f ∈ u.intent.manifest.files := by
  unfold inventory
  split <;> simp

theorem manifest_mem_inventory : Owned.manifest ∈ inventory u t ↔ t.manifest ≠ none := by
  unfold inventory
  split
  next h => simpa [Option.isSome_iff_ne_none] using h
  next h => simpa [Option.isSome_iff_ne_none] using h

theorem nodup_inventory (h : u.intent.manifest.Unique) : (inventory u t).Nodup := by
  have hfiles : (u.intent.manifest.files.map Owned.file).Nodup :=
    (List.Nodup.of_map _ h).map fun f g hfg => by simpa using hfg
  unfold inventory
  split
  · exact List.nodup_append.2 ⟨hfiles, by simp, by simp⟩
  · simpa using hfiles

theorem do_openSink (h : Doing sha version (.openSink u) x) :
    ∃ x' rest dirs, removalStep sha (.openSink u) x = (x', .go (.move u rest dirs)) ∧
      Doing sha version (.move u rest dirs) x' := by
  obtain ⟨m, t, hintent, hrecords, hroot, hquarantine, hreceipt, hremains, hsink, hwhole⟩ := h
  have hmissing (hnone : t.manifest = none) : u.resumed = true := by
    by_contra hnot
    have hpresent := (hwhole (by simpa using hnot)).present
    cases hnone.symm.trans hpresent
  have hmanifest : u.intent.manifest = m := by rw [hintent]
  refine ⟨{ x with sink := some [] }, inventory u t, captureKnownDirectories t m, ?_, rfl, m, t, ?_⟩
  · simp only [removalStep, openSinkStep, hquarantine]
    rcases hsink with hsink | hsink
    · simpa [hsink, hintent] using hmissing
    · simpa [hsink, hintent] using hmissing
  · refine ⟨hintent, ⟨hrecords.named, hrecords.unique, hrecords.intent⟩, hroot, hquarantine,
      hreceipt, hremains, fun f hf => ?_, manifest_mem_inventory.2, fun d hd => ?_,
      List.pairwise_insertionSort _ _, fun f hf => ?_, fun hresumed => ?_⟩
    · exact file_mem_inventory.2 (hmanifest ▸ hremains.files f hf)
    · exact mem_captureKnown.2 ⟨hd, hremains.dirs d hd⟩
    · exact hmanifest ▸ file_mem_inventory.1 hf
    · have hall := hwhole hresumed
      refine ⟨nodup_inventory (hmanifest ▸ hrecords.unique), fun f hf => ?_,
        manifest_mem_inventory.1, ?_, fun d hd => (mem_captureKnown.1 hd).1⟩
      · exact hall.all f (hmanifest ▸ file_mem_inventory.1 hf)
      · exact (List.perm_insertionSort _ _).nodup_iff.2 (hremains.nodup.filter _)

theorem do_moveNil (h : Doing sha version (.move u [] dirs) x) :
    removalStep sha (.move u [] dirs) x = (x, .go (.moveDir u dirs)) ∧
      Doing sha version (.moveDir u dirs) x :=
  ⟨rfl, h⟩

theorem do_unlink (h : Doing sha version (.unlink u rest dirs) x) :
    ∃ x', removalStep sha (.unlink u rest dirs) x = (x', .go (.move u rest dirs)) ∧
      Doing sha version (.move u rest dirs) x' := by
  obtain ⟨⟨e, hsink⟩, m, t, hm⟩ := h
  refine ⟨x.unsink, rfl, by simp [VersionFiles.unsink, hsink], m, t, ?_⟩
  exact ⟨hm.pending, ⟨hm.records.named, hm.records.unique, hm.records.intent⟩, hm.root,
    hm.quarantine, hm.receipt, hm.remains, hm.filesLeft, hm.manifestLeft, hm.dirsLeft, hm.sorted,
    hm.known, hm.there⟩

/-- A file that is there is moved; what remains is covered by what is still to be moved. -/
theorem moving_file {f : ManifestFile} {e : SinkEntry}
    (h : Moving sha version u (.file f :: rest) dirs m t x) (hf : f ∈ t.files) :
    Moving sha version u rest dirs m (t.eraseFile f.path) (x.sinks (t.eraseFile f.path) e) where
  pending := h.pending
  records := ⟨h.records.named, h.records.unique, h.records.intent⟩
  root := h.root
  quarantine := rfl
  receipt := h.receipt
  remains := h.remains.eraseFile
  filesLeft := fun g hg => by
    obtain ⟨hg, hne⟩ := List.mem_filter.1 hg
    rcases List.mem_cons.1 (h.filesLeft g hg) with heq | hrest
    · cases heq
      simp at hne
    · exact hrest
  manifestLeft := fun hm => by simpa using h.manifestLeft hm
  dirsLeft := h.dirsLeft
  sorted := h.sorted
  known := fun g hg => h.known g (List.mem_cons_of_mem _ hg)
  there := fun hresumed => by
    obtain ⟨hnodup, hfiles, hmanifest, hdirs⟩ := h.there hresumed
    refine ⟨hnodup.of_cons, fun g hg => ?_, fun hm => hmanifest (List.mem_cons_of_mem _ hm), hdirs⟩
    refine List.mem_filter.2 ⟨hfiles g (List.mem_cons_of_mem _ hg), ?_⟩
    have hne : g.path ≠ f.path := fun hpath => by
      obtain rfl := h.records.unique.eq (h.known g (List.mem_cons_of_mem _ hg))
        (h.known f List.mem_cons_self) hpath
      exact (List.nodup_cons.1 hnodup).1 hg
    simpa using hne

theorem moving_manifest {e : SinkEntry}
    (h : Moving sha version u (.manifest :: rest) dirs m t x) :
    Moving sha version u rest dirs m { t with manifest := none }
      (x.sinks { t with manifest := none } e) where
  pending := h.pending
  records := ⟨h.records.named, h.records.unique, h.records.intent⟩
  root := h.root
  quarantine := rfl
  receipt := h.receipt
  remains := h.remains.eraseManifest
  filesLeft := fun g hg => by simpa using h.filesLeft g hg
  manifestLeft := nofun
  dirsLeft := h.dirsLeft
  sorted := h.sorted
  known := fun g hg => h.known g (List.mem_cons_of_mem _ hg)
  there := fun hresumed => by
    obtain ⟨hnodup, hfiles, -, hdirs⟩ := h.there hresumed
    refine ⟨hnodup.of_cons, fun g hg => hfiles g (List.mem_cons_of_mem _ hg), fun hm => ?_, hdirs⟩
    exact absurd hm (List.nodup_cons.1 hnodup).1

/-- What is not there need not be moved. -/
theorem moving_missing (h : Moving sha version u (o :: rest) dirs m t x)
    (hresumed : u.resumed = true)
    (hfile : ∀ f, o = .file f → f ∉ t.files) (hmanifest : o = .manifest → t.manifest = none) :
    Moving sha version u rest dirs m t x :=
  { h with
    filesLeft := fun g hg => by
      rcases List.mem_cons.1 (h.filesLeft g hg) with heq | hrest
      · exact absurd hg (hfile g heq.symm)
      · exact hrest
    manifestLeft := fun hm => by
      rcases List.mem_cons.1 (h.manifestLeft hm) with heq | hrest
      · exact absurd (hmanifest heq.symm) hm
      · exact hrest
    known := fun g hg => h.known g (List.mem_cons_of_mem _ hg)
    there := fun hnot => by simp [hresumed] at hnot }

theorem do_move (h : Doing sha version (.move u (o :: rest) dirs) x) :
    (∃ x', removalStep sha (.move u (o :: rest) dirs) x = (x', .go (.unlink u rest dirs)) ∧
      Doing sha version (.unlink u rest dirs) x') ∨
    removalStep sha (.move u (o :: rest) dirs) x = (x, .go (.move u rest dirs)) ∧
      Doing sha version (.move u rest dirs) x := by
  obtain ⟨hsink, m, t, hm⟩ := h
  have hresumed (hmissing : (∃ f, o = .file f ∧ f ∉ t.files) ∨ o = .manifest ∧ t.manifest = none) :
      u.resumed = true := by
    by_contra hnot
    obtain ⟨-, hfiles, hmanifest, -⟩ := hm.there (by simpa using hnot)
    rcases hmissing with ⟨f, rfl, hf⟩ | ⟨rfl, hnone⟩
    · exact hf (hfiles f List.mem_cons_self)
    · exact hmanifest List.mem_cons_self hnone
  cases o with
  | file f =>
    cases hfile : t.file? f.path with
    | none =>
      have hf : f ∉ t.files := fun hf => file?_none hfile hf rfl
      have hu := hresumed (.inl ⟨f, rfl, hf⟩)
      refine .inr ⟨?_, hsink, m, t, moving_missing hm hu (fun g hg => ?_) nofun⟩
      · simp [removalStep, moveStep, hm.quarantine, hfile, hu]
      · cases hg
        exact hf
    | some g =>
      obtain ⟨hg, hpath⟩ := file?_some hfile
      obtain rfl :=
        hm.records.unique.eq (hm.remains.files g hg) (hm.known f List.mem_cons_self) hpath
      refine .inl ⟨x.sinks (t.eraseFile g.path) (.file g), ?_, ⟨.file g, ?_⟩, m, _,
        moving_file hm hg⟩
      · simp [removalStep, moveStep, hm.quarantine, hfile]
      · simp [VersionFiles.sinks, hsink]
  | manifest =>
    cases hmanifest : t.manifest with
    | none =>
      have hu := hresumed (.inr ⟨rfl, hmanifest⟩)
      refine .inr ⟨?_, hsink, m, t, moving_missing hm hu nofun fun _ => hmanifest⟩
      simp [removalStep, moveStep, hm.quarantine, hmanifest, hu]
    | some m' =>
      obtain rfl := hm.remains.manifest m' hmanifest
      refine .inl ⟨x.sinks { t with manifest := none } (.manifest m'), ?_,
        ⟨.manifest m', ?_⟩, m', _,
        moving_manifest hm⟩
      · simp [removalStep, moveStep, hm.quarantine, hmanifest, hm.pending]
      · simp [VersionFiles.sinks, hsink]

theorem Moving.files_nil (h : Moving sha version u [] dirs m t x) : t.files = [] := by
  rw [List.eq_nil_iff_forall_not_mem]
  exact fun f hf => nomatch h.filesLeft f hf

theorem Moving.manifest_none (h : Moving sha version u [] dirs m t x) : t.manifest = none := by
  by_contra hm
  exact nomatch h.manifestLeft hm

theorem length_lt_of_below {e : Path} (hahead : d.isPrefixOf e = true) (hne : e ≠ d) :
    d.length < e.length := by
  have hp := List.isPrefixOf_iff_prefix.1 hahead
  exact lt_of_le_of_ne hp.length_le fun hlen => hne (hp.eq_of_length hlen).symm

/-- The directories come after those below them. -/
theorem below_empty (h : Moving sha version u [] (d :: dirs) m t x) :
    (t.below d).isEmpty = true := by
  have hdirs : t.dirs.filter (fun e => d.isPrefixOf e && e ≠ d) = [] := by
    refine List.filter_eq_nil_iff.2 fun e he hbelow => ?_
    obtain ⟨hahead, hne⟩ : d.isPrefixOf e = true ∧ e ≠ d := by simpa using hbelow
    have hlt := length_lt_of_below hahead hne
    rcases List.mem_cons.1 (h.dirsLeft e he) with heq | hrest
    · exact hne heq
    · rcases List.rel_of_pairwise_cons h.sorted hrest with hdeeper | ⟨hdeeper, -⟩
      · exact absurd hlt (Nat.lt_asymm hdeeper)
      · exact absurd hdeeper hlt.ne'
  simp only [Tree.isEmpty, Tree.below, hdirs, h.files_nil]
  rfl

theorem moving_dir {e : SinkEntry} (h : Moving sha version u [] (d :: dirs) m t x) :
    Moving sha version u [] dirs m (t.eraseDir d) (x.sinks (t.eraseDir d) e) where
  pending := h.pending
  records := ⟨h.records.named, h.records.unique, h.records.intent⟩
  root := h.root
  quarantine := rfl
  receipt := h.receipt
  remains := h.remains.eraseDir
  filesLeft := fun g hg => h.filesLeft g (List.mem_of_mem_filter hg)
  manifestLeft := h.manifestLeft
  dirsLeft := fun e he => by
    obtain ⟨he, hne⟩ := List.mem_filter.1 he
    rcases List.mem_cons.1 (h.dirsLeft e he) with rfl | hrest
    · have hself : e.isPrefixOf e = true := List.isPrefixOf_iff_prefix.2 (List.prefix_refl e)
      simp [hself] at hne
    · exact hrest
  sorted := h.sorted.of_cons
  known := nofun
  there := fun hresumed => by
    obtain ⟨-, -, -, hnodup, hdirs⟩ := h.there hresumed
    refine ⟨.nil, nofun, nofun, hnodup.of_cons, fun e he => ?_⟩
    refine List.mem_filter.2 ⟨hdirs e (List.mem_cons_of_mem _ he), ?_⟩
    have hne : e ≠ d := by
      rintro rfl
      exact (List.nodup_cons.1 hnodup).1 he
    have hahead : ¬ d.isPrefixOf e = true := fun hahead => by
      have hlt := length_lt_of_below hahead hne
      rcases List.rel_of_pairwise_cons h.sorted he with hdeeper | ⟨hdeeper, -⟩
      · exact absurd hlt (Nat.lt_asymm hdeeper)
      · exact absurd hdeeper hlt.ne'
    rw [Bool.not_eq_true] at hahead
    simp [hahead]

theorem do_moveDir (h : Doing sha version (.moveDir u (d :: dirs)) x) :
    (∃ x', removalStep sha (.moveDir u (d :: dirs)) x = (x', .go (.unlinkDir u dirs)) ∧
      Doing sha version (.unlinkDir u dirs) x') ∨
    removalStep sha (.moveDir u (d :: dirs)) x = (x, .go (.moveDir u dirs)) ∧
      Doing sha version (.moveDir u dirs) x := by
  obtain ⟨hsink, m, t, hm⟩ := h
  by_cases hd : d ∈ t.dirs
  · refine .inl ⟨x.sinks (t.eraseDir d) (.dir d (t.below d)), ?_,
      ⟨d, t.below d, below_empty hm, ?_⟩,
      m, _, moving_dir hm⟩
    · simp [removalStep, moveDirStep, hm.quarantine, hd]
    · simp [VersionFiles.sinks, hsink]
  · have hu : u.resumed = true := by
      by_contra hnot
      obtain ⟨-, -, -, -, hdirs⟩ := hm.there (by simpa using hnot)
      exact hd (hdirs d List.mem_cons_self)
    refine .inr ⟨?_, hsink, m, t, { hm with
      dirsLeft := fun e he => ?_, sorted := hm.sorted.of_cons, there := fun hnot => ?_ }⟩
    · simp [removalStep, moveDirStep, hm.quarantine, hd, hu]
    · rcases List.mem_cons.1 (hm.dirsLeft e he) with rfl | hrest
      · exact absurd he hd
      · exact hrest
    · simp [hu] at hnot

theorem do_unlinkDir (h : Doing sha version (.unlinkDir u dirs) x) :
    ∃ x', removalStep sha (.unlinkDir u dirs) x = (x', .go (.moveDir u dirs)) ∧
      Doing sha version (.moveDir u dirs) x' := by
  obtain ⟨⟨d, t', hempty, hsink⟩, m, t, hm⟩ := h
  refine ⟨x.unsink, ?_, by simp [VersionFiles.unsink, hsink], m, t, ?_⟩
  · simp [removalStep, unlinkDirStep, hsink, hempty]
  · exact ⟨hm.pending, ⟨hm.records.named, hm.records.unique, hm.records.intent⟩, hm.root,
      hm.quarantine, hm.receipt, hm.remains, hm.filesLeft, hm.manifestLeft, hm.dirsLeft, hm.sorted,
      hm.known, hm.there⟩

theorem do_moveDirNil (h : Doing sha version (.moveDir u []) x) :
    removalStep sha (.moveDir u []) x = (x, .go (.moveRoot u)) ∧
    Doing sha version (.moveRoot u) x :=
  ⟨rfl, h⟩

theorem do_moveRoot (h : Doing sha version (.moveRoot u) x) :
    ∃ x', removalStep sha (.moveRoot u) x = (x', .go (.unlinkRoot u)) ∧
      Doing sha version (.unlinkRoot u) x' := by
  obtain ⟨hsink, m, t, hm⟩ := h
  have hdirs : t.dirs = [] := by
    rw [List.eq_nil_iff_forall_not_mem]
    exact fun d hd => nomatch hm.dirsLeft d hd
  refine ⟨{ x with quarantine := none, sink := x.sink.map (· ++ [.root t]) }, ?_, ⟨t, ?_, ?_⟩,
    hm.root, rfl, m, hm.pending, ⟨hm.records.named, hm.records.unique, hm.records.intent⟩,
    .inr hm.receipt⟩
  · simp [removalStep, moveRootStep, hm.quarantine]
  · simp [Tree.isEmpty, hm.files_nil, hdirs, hm.manifest_none]
  · simp [hsink]

theorem do_unlinkRoot (h : Doing sha version (.unlinkRoot u) x) :
    ∃ x', removalStep sha (.unlinkRoot u) x = (x', .go (.removeSink u)) ∧
      Doing sha version (.removeSink u) x' := by
  obtain ⟨⟨t, hempty, hsink⟩, he⟩ := h
  refine ⟨x.unsink, ?_, by simp [VersionFiles.unsink, hsink], he.root, he.quarantine, ?_⟩
  · simp [removalStep, unlinkRootStep, hsink, hempty]
  · obtain ⟨m, hu, hrecords, hreceipt⟩ := he.records
    exact ⟨m, hu, ⟨hrecords.named, hrecords.unique, hrecords.intent⟩, hreceipt⟩

theorem do_removeSink (h : Doing sha version (.removeSink u) x) :
    ∃ x', removalStep sha (.removeSink u) x = (x', .go (.removeReceipt u)) ∧
      Doing sha version (.removeReceipt u) x' := by
  obtain ⟨hsink, he⟩ := h
  refine ⟨{ x with sink := none }, by simp [removalStep, hsink], .inl rfl, he.root,
    he.quarantine, ?_⟩
  obtain ⟨m, hu, hrecords, hreceipt⟩ := he.records
  exact ⟨m, hu, ⟨hrecords.named, hrecords.unique, hrecords.intent⟩, hreceipt⟩

theorem do_removeReceipt (h : Doing sha version (.removeReceipt u) x) :
    ∃ x', removalStep sha (.removeReceipt u) x = (x', .go (.removeIntent u)) ∧
      Doing sha version (.removeIntent u) x' := by
  obtain ⟨hsink, he⟩ := h
  obtain ⟨m, hu, hrecords, hreceipt⟩ := he.records
  rcases hreceipt with hreceipt | hreceipt
  · refine ⟨x, ?_, hsink, he, hreceipt⟩
    simp [removalStep, removeReceiptStep, hreceipt]
  · refine ⟨{ x with receipt := none }, ?_, hsink, ⟨he.root, he.quarantine, m, hu,
      ⟨hrecords.named, hrecords.unique, hrecords.intent⟩, .inl rfl⟩, rfl⟩
    simp [removalStep, removeReceiptStep, hreceipt, hu]

theorem do_removeIntent (h : Doing sha version (.removeIntent u) x) :
    ∃ x', removalStep sha (.removeIntent u) x = (x', .done (.removed, none)) ∧ Absent x' :=
  ⟨_, rfl, h.2.1.root, h.2.1.quarantine, h.1, h.2.2, rfl⟩

/-! ### To the end -/

/-- No operation of a removal stops it. -/
theorem doing_step {r : Removal} (h : Doing sha version r x) :
    (∃ r' x', removalStep sha r x = (x', .go r') ∧ Doing sha version r' x') ∨
      ∃ x', removalStep sha r x = (x', .done (.removed, none)) ∧ Absent x' := by
  cases r with
  | createIntent i => exact .inl ⟨_, do_createIntent h⟩
  | writeIntent i => exact .inl ⟨_, do_writeIntent h⟩
  | quarantine u =>
    rcases do_quarantine h with h | h
    · exact .inl ⟨_, h⟩
    · exact .inl ⟨_, x, h⟩
  | openSink u =>
    obtain ⟨x', rest, dirs, h⟩ := do_openSink h
    exact .inl ⟨_, x', h⟩
  | move u rest dirs => cases rest with
    | nil => exact .inl ⟨_, x, do_moveNil h⟩
    | cons o rest =>
      rcases do_move h with h | h
      · exact .inl ⟨_, h⟩
      · exact .inl ⟨_, x, h⟩
  | unlink u rest dirs => exact .inl ⟨_, do_unlink h⟩
  | moveDir u dirs => cases dirs with
    | nil => exact .inl ⟨_, x, do_moveDirNil h⟩
    | cons d dirs =>
      rcases do_moveDir h with h | h
      · exact .inl ⟨_, h⟩
      · exact .inl ⟨_, x, h⟩
  | unlinkDir u dirs => exact .inl ⟨_, do_unlinkDir h⟩
  | moveRoot u => exact .inl ⟨_, do_moveRoot h⟩
  | unlinkRoot u => exact .inl ⟨_, do_unlinkRoot h⟩
  | removeSink u => exact .inl ⟨_, do_removeSink h⟩
  | removeReceipt u => exact .inl ⟨_, do_removeReceipt h⟩
  | removeIntent u => exact .inr (do_removeIntent h)

variable (sha) in
/-- A removal of its own. -/
def removal : Sections VersionFiles Removal Removal Stopped := ⟨id, removalStep sha⟩

variable (sha) in
/-- The removal comes to its end. -/
def Finishes (r : Removal) (x : VersionFiles) : Prop :=
  ∃ x', (removal sha).Returns r x x' (.removed, none) ∧ Absent x'

theorem Finishes.after {r r' : Removal} {x' : VersionFiles} (h : Finishes sha r' x')
    (hstep : removalStep sha r x = (x', .go r')) : Finishes sha r x :=
  have ⟨y, hy, habsent⟩ := h
  have hgo : (removal sha).step r x = (x', .go r') := hstep
  ⟨y, (Sections.returns_go hgo).2 hy, habsent⟩

theorem finishes_removeReceipt (h : Doing sha version (.removeReceipt u) x) :
    Finishes sha (.removeReceipt u) x := by
  obtain ⟨x₁, hstep, h⟩ := do_removeReceipt h
  obtain ⟨x₂, hdone, habsent⟩ := do_removeIntent h
  have hreturns : (removal sha).step (.removeIntent u) x₁ = (x₂, .done (.removed, none)) := hdone
  have hlast : Finishes sha (.removeIntent u) x₁ :=
    ⟨x₂, (Sections.returns_done hreturns).2 ⟨rfl, rfl⟩, habsent⟩
  exact hlast.after hstep

theorem finishes_moveRoot (h : Doing sha version (.moveRoot u) x) :
    Finishes sha (.moveRoot u) x := by
  obtain ⟨x₁, hroot, h⟩ := do_moveRoot h
  obtain ⟨x₂, hunlink, h⟩ := do_unlinkRoot h
  obtain ⟨x₃, hsink, h⟩ := do_removeSink h
  exact (((finishes_removeReceipt h).after hsink).after hunlink).after hroot

theorem finishes_moveDir (h : Doing sha version (.moveDir u dirs) x) :
    Finishes sha (.moveDir u dirs) x := by
  induction dirs generalizing x with
  | nil =>
    obtain ⟨hstep, h⟩ := do_moveDirNil h
    exact (finishes_moveRoot h).after hstep
  | cons d dirs ih =>
    rcases do_moveDir h with ⟨x₁, hstep, h⟩ | ⟨hstep, h⟩
    · obtain ⟨x₂, hunlink, h⟩ := do_unlinkDir h
      exact ((ih h).after hunlink).after hstep
    · exact (ih h).after hstep

theorem finishes_move (h : Doing sha version (.move u rest dirs) x) :
    Finishes sha (.move u rest dirs) x := by
  induction rest generalizing x with
  | nil =>
    obtain ⟨hstep, h⟩ := do_moveNil h
    exact (finishes_moveDir h).after hstep
  | cons o rest ih =>
    rcases do_move h with ⟨x₁, hstep, h⟩ | ⟨hstep, h⟩
    · obtain ⟨x₂, hunlink, h⟩ := do_unlink h
      exact ((ih h).after hunlink).after hstep
    · exact (ih h).after hstep

theorem finishes_quarantine (h : Doing sha version (.quarantine u) x) :
    Finishes sha (.quarantine u) x := by
  rcases do_quarantine h with ⟨x₁, hstep, h⟩ | ⟨hstep, h⟩
  · obtain ⟨x₂, rest, dirs, hopen, h⟩ := do_openSink h
    exact ((finishes_move h).after hopen).after hstep
  · exact (finishes_removeReceipt h).after hstep

theorem finishes_createIntent (h : Doing sha version (.createIntent i) x) :
    Finishes sha (.createIntent i) x := by
  obtain ⟨x₁, hcreate, h⟩ := do_createIntent h
  obtain ⟨x₂, hwrite, h⟩ := do_writeIntent h
  exact ((finishes_quarantine h).after hwrite).after hcreate

/-- A version at rest that is not absent: its removal begins, and comes to its end. -/
theorem begins (h : Settled sha version x) :
    Absent x ∨ ∃ r, beginRemoval sha version x = .go r ∧ Doing sha version r x ∧
    Finishes sha r x := by
  cases h with
  | absent root quarantine sink receipt intent =>
    exact .inl ⟨root, quarantine, sink, receipt, intent⟩
  | installed m t root whole unique named quarantine sink receipt intent =>
    have hdoing : Doing sha version (.createIntent ⟨version, sha m, m⟩) x :=
      ⟨m, t, rfl, root, whole, unique, named, quarantine, sink, receipt, intent⟩
    refine .inr ⟨_, ?_, hdoing, finishes_createIntent hdoing⟩
    have hunchanged : changedFiles t m false = [] := whole.unchanged unique (.inr whole.all)
    simp [beginRemoval, readUninstallIntent, intent, receipt, root, whole.present, hunchanged]
  | intended m t root whole records quarantine sink receipt =>
    have hdoing : Doing sha version (.quarantine ⟨⟨version, sha m, m⟩, true⟩) x :=
      ⟨.intended m t root whole records quarantine sink receipt, records.intent, nofun⟩
    refine .inr ⟨_, ?_, hdoing, finishes_quarantine hdoing⟩
    simp [beginRemoval, readUninstallIntent, records.intent, records.named]
  | quarantined m t root quarantine remains records sink receipt =>
    have hdoing : Doing sha version (.quarantine ⟨⟨version, sha m, m⟩, true⟩) x :=
      ⟨.quarantined m t root quarantine remains records sink receipt, records.intent, nofun⟩
    refine .inr ⟨_, ?_, hdoing, finishes_quarantine hdoing⟩
    simp [beginRemoval, readUninstallIntent, records.intent, records.named]
  | removed m root quarantine records sink receipt =>
    have hdoing : Doing sha version (.quarantine ⟨⟨version, sha m, m⟩, true⟩) x :=
      ⟨.removed m root quarantine records sink receipt, records.intent, nofun⟩
    refine .inr ⟨_, ?_, hdoing, finishes_quarantine hdoing⟩
    simp [beginRemoval, readUninstallIntent, records.intent, records.named]

/-! ### Where a removal may end early -/

/-- A process may die here: nothing is written in part, and nothing is in the sink. -/
def Removal.mayCrash : Removal → Bool
  | .writeIntent _ | .unlink _ _ _ | .unlinkDir _ _ | .unlinkRoot _ => false
  | _ => true

theorem Moving.settled (h : Moving sha version u rest dirs m t x) (hsink : x.sinkClean) :
    Settled sha version x :=
  .quarantined m t h.root h.quarantine h.remains h.records hsink h.receipt

theorem Emptied.settled (h : Emptied sha version u x) (hsink : x.sinkClean) :
    Settled sha version x :=
  have ⟨m, _, hrecords, hreceipt⟩ := h.records
  .removed m h.root h.quarantine hrecords hsink hreceipt

theorem Doing.settled {r : Removal} (h : Doing sha version r x) (hr : r.mayCrash = true) :
    Settled sha version x := by
  cases r with
  | createIntent i =>
    obtain ⟨m, t, rfl, hroot, hwhole, hunique, hnamed, hquarantine, hsink, hreceipt, hintent⟩ := h
    exact .installed m t hroot hwhole hunique hnamed hquarantine hsink hreceipt hintent
  | quarantine u => exact h.1
  | openSink u =>
    obtain ⟨m, t, hintent, hrecords, hroot, hquarantine, hreceipt, hremains, hsink, -⟩ := h
    exact .quarantined m t hroot hquarantine hremains hrecords hsink hreceipt
  | move u rest dirs =>
    obtain ⟨hsink, m, t, hm⟩ := h
    exact hm.settled (.inr hsink)
  | moveDir u dirs =>
    obtain ⟨hsink, m, t, hm⟩ := h
    exact hm.settled (.inr hsink)
  | moveRoot u =>
    obtain ⟨hsink, m, t, hm⟩ := h
    exact hm.settled (.inr hsink)
  | removeSink u => exact h.2.settled (.inr h.1)
  | removeReceipt u => exact h.2.settled h.1
  | removeIntent u => exact h.2.1.settled h.1
  | _ => cases hr

end
end
end Orchestrator.Install
