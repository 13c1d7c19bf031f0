import Orchestrator.Install.Disk
import Mathlib.Data.List.Infix

/-!
# Installing, uninstalling and pinning

`InstallPackage`, `UninstallPackage`, `PinVersion` and `UnpinVersion`, operation by operation under
the lock. What is read is read with the operation that follows it: nobody else writes meanwhile.
A call that finds the lock taken fails before its first operation, and an operation that fails
leaves the files as a crash before it does.
-/
namespace Orchestrator.Install
open Library

inductive Call where
  | pin (taskId version : String)
  | unpin (taskId : String)
  | install (version : String) (src : Source)
  | uninstall (version : String)
  deriving DecidableEq, Repr

/-- What a call returns; only an uninstallation has a status. -/
structure Answer where
  call : Call
  status : Option Status := none
  error : Option InstallError := none
  deriving DecidableEq, Repr

/-- An entry of the inventory that an uninstallation removes. -/
inductive Owned where
  | file (f : ManifestFile)
  | manifest
  deriving DecidableEq, Repr

/-- An intent, and whether it was found on the disk. -/
structure Pending where
  intent : Intent
  resumed : Bool
  deriving DecidableEq, Repr

/-- The places of an uninstallation, once the pins are checked. -/
inductive Removal where
  | createIntent (i : Intent)
  | writeIntent (i : Intent)
  | quarantine (u : Pending)
  | openSink (u : Pending)
  | move (u : Pending) (rest : List Owned) (dirs : List Path)
  | unlink (u : Pending) (rest : List Owned) (dirs : List Path)
  | moveDir (u : Pending) (dirs : List Path)
  | unlinkDir (u : Pending) (dirs : List Path)
  | moveRoot (u : Pending)
  | unlinkRoot (u : Pending)
  | removeSink (u : Pending)
  | removeReceipt (u : Pending)
  | removeIntent (u : Pending)
  deriving DecidableEq, Repr

inductive Place where
  | pin (taskId version : String)
  | writePin (taskId version : String)
  | unpin (taskId : String)
  | install (version : String) (src : Source)
  | copy (version : String) (src : Source) (stage : Tree) (rest : List SourceEntry)
  | publish (version : String) (src : Source) (stage : Tree) (m : Manifest)
  | createReceipt (version : String) (src : Source) (m : Manifest)
  | writeReceipt (version : String) (src : Source) (m : Manifest)
  | uninstall (version : String)
  | removing (version : String) (r : Removal)

def Call.start : Call → Place
  | .pin taskId version => .pin taskId version
  | .unpin taskId => .unpin taskId
  | .install version src => .install version src
  | .uninstall version => .uninstall version

/-! ## Pins -/

def Disk.setPin (s : Disk) (taskId : String) (f : PinFile) : Disk :=
  { s with pins := s.pins.filter (fun entry => entry.1 ≠ taskId) ++ [(taskId, f)] }

def Disk.erasePin (s : Disk) (taskId : String) : Disk :=
  { s with pins := s.pins.filter fun entry => entry.1 ≠ taskId }

section
variable (sha : Manifest → Nat)

def pinStep (taskId version : String) (s : Disk) : Disk × Leads Place Answer :=
  let fails := fun e => (s, .done { call := .pin taskId version, error := some (.pin e) })
  if isId taskId = false then fails .pinInvalid
  else if verifyInstalled sha version (s.version version) = false then
    fails .installedVersionInvalid
  else match readPin (s.pins.lookup taskId) with
  | .error e => fails e
  | .ok (some active) =>
    if active.taskId = taskId ∧ active.version = version then
      (s, .done { call := .pin taskId version })
    else fails .pinConflict
  | .ok none => (s.setPin taskId .invalid, .go (.writePin taskId version))

def writePinStep (taskId version : String) (s : Disk) : Disk × Leads Place Answer :=
  (s.setPin taskId (.whole ⟨taskId, version⟩), .done { call := .pin taskId version })

def unpinStep (taskId : String) (s : Disk) : Disk × Leads Place Answer :=
  let fails := fun e => (s, .done { call := .unpin taskId, error := some (.pin e) })
  if isId taskId = false then fails .pinInvalid
  else match readPin (s.pins.lookup taskId) with
  | .error e => fails e
  | .ok none => (s, .done { call := .unpin taskId })
  | .ok (some active) =>
    if active.taskId ≠ taskId then fails .pinConflict
    else (s.erasePin taskId, .done { call := .unpin taskId })

/-! ## Installation -/

/-- The stage with the directories above a path. -/
def Tree.mkdirAll (t : Tree) (p : Path) : Tree :=
  { t with dirs := t.dirs ++ (p.inits.filter fun d => d ≠ [] ∧ d ≠ p ∧ d ∉ t.dirs) }

def Tree.addFile (t : Tree) (p : Path) (digest stamp : Nat) : Tree :=
  { t.mkdirAll p with files := t.files ++ [⟨p, digest, stamp⟩] }

/-- `collectFiles`. -/
def collectFiles (t : Tree) : List ManifestFile :=
  t.files.insertionSort fun f g => pathText f.path ≤ pathText g.path

def stageManifest (version : String) (src : Source) (t : Tree) : Manifest where
  version := version
  binarySHA := src.binary
  files := collectFiles t

/-- Something is at the path. -/
def Tree.has (t : Tree) (p : Path) : Prop := (t.file? p).isSome = true ∨ p ∈ t.dirs

instance (t : Tree) (p : Path) : Decidable (t.has p) :=
  inferInstanceAs (Decidable (_ ∨ _))

/-- The binary of the package, or the one that is given. -/
def addBinary (src : Source) (stage : Tree) (stamp : Nat) : Except InstallError Tree :=
  match stage.file? binaryPath with
  | some f => if f.sha = src.binary then .ok stage else .error .binaryMismatch
  | none =>
    if binaryPath ∈ stage.dirs then .error .binaryMismatch
    else .ok (stage.addFile binaryPath src.binary stamp)

/-- The end of the stage. -/
def finishStage (version : String) (src : Source) (stage : Tree) (stamp : Nat) :
    Except InstallError (Tree × Manifest) :=
  match addBinary src stage stamp with
  | .error e => .error e
  | .ok stage =>
    if stage.has ["manifest.json"] then .error .fileExists
    else
      let m := stageManifest version src stage
      .ok ({ stage with manifest := some m }, m)

def installStep (version : String) (src : Source) (s : Disk) : Disk × Leads Place Answer :=
  let fails := fun e => (s, .done { call := .install version src, error := some e })
  if src.valid = false then fails .sourceInvalid
  else if (s.version version).root.isSome = true then fails .versionExists
  else ({ s with fresh := s.fresh + 1 }, .go (.copy version src { inode := s.fresh } src.entries))

/-- `copyTree`, entry by entry. -/
def copyStep (version : String) (src : Source) (stage : Tree) (s : Disk) :
    List SourceEntry → Disk × Leads Place Answer
  | .dir p :: rest =>
    if stage.has p then (s, .done { call := .install version src, error := some .fileExists })
    else (s, .go (.copy version src { stage with dirs := stage.dirs ++ [p] } rest))
  | .file p digest :: rest =>
    if stage.has p then (s, .done { call := .install version src, error := some .fileExists })
    else ({ s with fresh := s.fresh + 1 },
      .go (.copy version src (stage.addFile p digest s.fresh) rest))
  | .other _ :: _ => (s, .done { call := .install version src, error := some .sourceUnsafe })
  | [] => match finishStage version src stage s.fresh with
    | .error e => (s, .done { call := .install version src, error := some e })
    | .ok (stage, m) => ({ s with fresh := s.fresh + 1 }, .go (.publish version src stage m))

def publishStep (version : String) (src : Source) (stage : Tree) (m : Manifest) (x : VersionFiles) :
    VersionFiles × Leads Place Answer :=
  if x.root.isSome = true then
    (x, .done { call := .install version src, error := some .versionExists })
  else ({ x with root := some stage }, .go (.createReceipt version src m))

def createReceiptStep (version : String) (src : Source) (m : Manifest) (x : VersionFiles) :
    VersionFiles × Leads Place Answer :=
  if x.receipt.isSome = true then
    (x, .done { call := .install version src, error := some .fileExists })
  else ({ x with receipt := some .invalid }, .go (.writeReceipt version src m))

def writeReceiptStep (version : String) (src : Source) (m : Manifest) (x : VersionFiles) :
    VersionFiles × Leads Place Answer :=
  ({ x with receipt := some (.whole ⟨version, sha m⟩) }, .done { call := .install version src })

/-! ## Uninstallation -/

/-- The status and the error of an uninstallation that stops. -/
abbrev Stopped := Status × Option InstallError

/-- `UninstallPackage`, from the intent on: either it is there, or the version is checked. -/
def beginRemoval (version : String) (x : VersionFiles) : Leads Removal Stopped :=
  match readUninstallIntent version x.intent with
  | .error e => .done (.unknown, some e)
  | .ok (some i) => .go (.quarantine ⟨i, true⟩)
  | .ok none => match x.receipt, x.root with
    | some (.whole r), some t => match t.manifest with
      | some m =>
        if r.version ≠ version ∨ sha m ≠ r.manifestSHA ∨ changedFiles t m false ≠ [] then
          .done (.retained, some .changedFiles)
        else .go (.createIntent ⟨version, sha m, m⟩)
      | none => .done (.retained, some .changedFiles)
    | _, _ => .done (.retained, some .changedFiles)

/-- The inventory: the files of the manifest, and the manifest itself if it is there. -/
def inventory (u : Pending) (t : Tree) : List Owned :=
  u.intent.manifest.files.map Owned.file ++
    if t.manifest.isSome = true then [Owned.manifest] else []

/-- `removeOwnedTreeAnchored`, up to the move of the root out of its place. -/
def quarantineStep (u : Pending) (x : VersionFiles) : VersionFiles × Leads Removal Stopped :=
  match x.root, x.quarantine with
  | none, none => (x, .go (.removeReceipt u))
  | some t, q =>
    if changedFiles t u.intent.manifest u.resumed ≠ [] then
      (x, .done (.retained, some .changedFiles))
    else if q.isSome = true then (x, .done (.cleanupPending, some .rootAmbiguous))
    else ({ x with root := none, quarantine := some t }, .go (.openSink u))
  | none, some t =>
    if changedFiles t u.intent.manifest u.resumed ≠ [] then
      (x, .done (.retained, some .changedFiles))
    else (x, .go (.openSink u))

def openSinkStep (u : Pending) (x : VersionFiles) : VersionFiles × Leads Removal Stopped :=
  match x.quarantine with
  | none => (x, .done (.cleanupPending, some .missing))
  | some t => match x.sink with
    | some (_ :: _) => (x, .done (.cleanupPending, some .quarantineRetained))
    | _ =>
      let x := { x with sink := some [] }
      if t.manifest.isNone = true ∧ u.resumed = false then
        (x, .done (.cleanupPending, some .missing))
      else (x, .go (.move u (inventory u t) (captureKnownDirectories t u.intent.manifest)))

def VersionFiles.sinks (x : VersionFiles) (t : Tree) (e : SinkEntry) : VersionFiles :=
  { x with quarantine := some t, sink := x.sink.map (· ++ [e]) }

def VersionFiles.unsink (x : VersionFiles) : VersionFiles :=
  { x with sink := x.sink.map List.dropLast }

/-- `moveVerifiedFile`, up to the move. -/
def moveStep (u : Pending) (x : VersionFiles) (dirs : List Path) :
    List Owned → VersionFiles × Leads Removal Stopped
  | [] => (x, .go (.moveDir u dirs))
  | .file f :: rest => match x.quarantine with
    | none => (x, .done (.cleanupPending, some .missing))
    | some t => match t.file? f.path with
      | none =>
        if u.resumed = true then (x, .go (.move u rest dirs))
        else (x, .done (.cleanupPending, some .missing))
      | some g =>
        if g.stamp ≠ f.stamp then (x, .done (.cleanupPending, some .identityChanged))
        else if g.sha ≠ f.sha then (x, .done (.cleanupPending, some .changedFiles))
        else (x.sinks (t.eraseFile f.path) (.file g), .go (.unlink u rest dirs))
  | .manifest :: rest => match x.quarantine with
    | none => (x, .done (.cleanupPending, some .missing))
    | some t => match t.manifest with
      | none =>
        if u.resumed = true then (x, .go (.move u rest dirs))
        else (x, .done (.cleanupPending, some .missing))
      | some m =>
        if sha m ≠ u.intent.manifestSHA then (x, .done (.cleanupPending, some .changedFiles))
        else (x.sinks { t with manifest := none } (.manifest m), .go (.unlink u rest dirs))

/-- `moveVerifiedDirectory`, up to the move. -/
def moveDirStep (u : Pending) (x : VersionFiles) :
    List Path → VersionFiles × Leads Removal Stopped
  | [] => (x, .go (.moveRoot u))
  | d :: dirs => match x.quarantine with
    | none => (x, .done (.cleanupPending, some .missing))
    | some t =>
      if d ∈ t.dirs then (x.sinks (t.eraseDir d) (.dir d (t.below d)), .go (.unlinkDir u dirs))
      else if u.resumed = true then (x, .go (.moveDir u dirs))
      else (x, .done (.cleanupPending, some .missing))

/-- The directory that was moved is removed if nothing is in it. -/
def unlinkDirStep (u : Pending) (x : VersionFiles) (dirs : List Path) :
    VersionFiles × Leads Removal Stopped :=
  match x.sink.bind List.getLast? with
  | some (.dir _ t) =>
    if t.isEmpty = true then (x.unsink, .go (.moveDir u dirs))
    else (x, .done (.cleanupPending, some .notEmpty))
  | _ => (x, .done (.cleanupPending, some .missing))

def moveRootStep (u : Pending) (x : VersionFiles) : VersionFiles × Leads Removal Stopped :=
  match x.quarantine with
  | none => (x, .done (.cleanupPending, some .missing))
  | some t => ({ x with quarantine := none, sink := x.sink.map (· ++ [.root t]) },
      .go (.unlinkRoot u))

def unlinkRootStep (u : Pending) (x : VersionFiles) : VersionFiles × Leads Removal Stopped :=
  match x.sink.bind List.getLast? with
  | some (.root t) =>
    if t.isEmpty = true then (x.unsink, .go (.removeSink u))
    else (x, .done (.cleanupPending, some .notEmpty))
  | _ => (x, .done (.cleanupPending, some .missing))

/-- `removeReceiptForIntent`. -/
def removeReceiptStep (u : Pending) (x : VersionFiles) : VersionFiles × Leads Removal Stopped :=
  match x.receipt with
  | none => (x, .go (.removeIntent u))
  | some .invalid => (x, .done (.cleanupPending, some .changedFiles))
  | some (.whole r) =>
    if r.version ≠ u.intent.version ∨ r.manifestSHA ≠ u.intent.manifestSHA then
      (x, .done (.cleanupPending, some .changedFiles))
    else ({ x with receipt := none }, .go (.removeIntent u))

def removalStep (r : Removal) (x : VersionFiles) : VersionFiles × Leads Removal Stopped :=
  match r with
  | .createIntent i =>
    if x.intent.isSome = true then (x, .done (.unknown, some .fileExists))
    else ({ x with intent := some .invalid }, .go (.writeIntent i))
  | .writeIntent i => ({ x with intent := some (.whole i) }, .go (.quarantine ⟨i, false⟩))
  | .quarantine u => quarantineStep u x
  | .openSink u => openSinkStep u x
  | .move u rest dirs => moveStep sha u x dirs rest
  | .unlink u rest dirs => (x.unsink, .go (.move u rest dirs))
  | .moveDir u dirs => moveDirStep u x dirs
  | .unlinkDir u dirs => unlinkDirStep u x dirs
  | .moveRoot u => moveRootStep u x
  | .unlinkRoot u => unlinkRootStep u x
  | .removeSink u =>
    ({ x with sink := if x.sink = some [] then none else x.sink }, .go (.removeReceipt u))
  | .removeReceipt u => removeReceiptStep u x
  | .removeIntent _ => ({ x with intent := none }, .done (.removed, none))

/-! ## The machine -/

def Disk.setVersion (s : Disk) (version : String) (x : VersionFiles) : Disk :=
  { s with version := Function.update s.version version x }

/-- Where an uninstallation leads its call. -/
def liftRemoval (version : String) : Leads Removal Stopped → Leads Place Answer
  | .go r => .go (.removing version r)
  | .yield r => .yield (.removing version r)
  | .done (status, error) => .done { call := .uninstall version, status := status, error := error }

/-- An operation on the files of one version. -/
def onVersion (version : String) (s : Disk)
    (f : VersionFiles → VersionFiles × Leads Place Answer) : Disk × Leads Place Answer :=
  let result := f (s.version version)
  (s.setVersion version result.1, result.2)

def uninstallStep (version : String) (s : Disk) : Leads Place Answer :=
  match checkPins version s.pins with
  | some e =>
    let status := if e = .versionPinned then .pinned else .unknown
    .done { call := .uninstall version, status := some status, error := some e }
  | none => liftRemoval version (beginRemoval sha version (s.version version))

def packageStep (r : Place) (s : Disk) : Disk × Leads Place Answer :=
  match r with
  | .pin taskId version => pinStep sha taskId version s
  | .writePin taskId version => writePinStep taskId version s
  | .unpin taskId => unpinStep taskId s
  | .install version src => installStep version src s
  | .copy version src stage rest => copyStep version src stage s rest
  | .publish version src stage m => onVersion version s (publishStep version src stage m)
  | .createReceipt version src m => onVersion version s (createReceiptStep version src m)
  | .writeReceipt version src m => onVersion version s (writeReceiptStep sha version src m)
  | .uninstall version => (s, uninstallStep sha version s)
  | .removing version r => onVersion version s fun x =>
      let result := removalStep sha r x
      (result.1, liftRemoval version result.2)

def package : Sections Disk Call Place Answer where
  start := Call.start
  step := packageStep sha

end
end Orchestrator.Install
