import Orchestrator.Install.Pins
import Orchestrator.Library.Sections
import Mathlib.Data.List.Sort

/-!
# The files of a destination

The trees of the installed versions, with the receipts, the intents and what an uninstallation has
put aside, and the reading of them.
-/
namespace Orchestrator.Install

/-! ## Data -/

/-- A path below the root of a version, by its components. -/
abbrev Path := List String

/-- `manifestFile`: `stamp` is mode, device, inode, size and modification time. -/
structure ManifestFile where
  path : Path
  sha : Nat
  stamp : Nat
  deriving DecidableEq, Repr

structure Manifest where
  version : String
  binarySHA : Nat
  files : List ManifestFile
  deriving DecidableEq, Repr

/-- The tree of a version: the inode of its root, its regular files, its directories, and its
`manifest.json`. -/
structure Tree where
  inode : Nat
  files : List ManifestFile := []
  dirs : List Path := []
  manifest : Option Manifest := none
  deriving DecidableEq, Repr

structure Receipt where
  version : String
  manifestSHA : Nat
  deriving DecidableEq, Repr

structure Intent where
  version : String
  manifestSHA : Nat
  manifest : Manifest
  deriving DecidableEq, Repr

/-- A file of JSON; `invalid` is one that is not read, such as one that is written in part. -/
inductive Written (α : Type) where
  | invalid
  | whole (a : α)
  deriving DecidableEq, Repr

/-- What is moved into the sink. -/
inductive SinkEntry where
  | file (f : ManifestFile)
  | manifest (m : Manifest)
  | dir (path : Path) (t : Tree)
  | root (t : Tree)
  deriving DecidableEq, Repr

/-- The files of one version: `versions/V`, `.uninstall-root-V`, `.uninstall-delete-V`,
`manifests/V.json` and `uninstall-intents/V.json`. -/
structure VersionFiles where
  root : Option Tree := none
  quarantine : Option Tree := none
  sink : Option (List SinkEntry) := none
  receipt : Option (Written Receipt) := none
  intent : Option (Written Intent) := none
  deriving DecidableEq, Repr

/-- The destination; `fresh` is above every stamp and inode that has been given. -/
structure Disk where
  version : String → VersionFiles
  pins : List (String × PinFile)
  fresh : Nat

def Disk.empty : Disk := ⟨fun _ => {}, [], 0⟩

inductive SourceEntry where
  | dir (path : Path)
  | file (path : Path) (sha : Nat)
  /-- A symbolic link, or a file that is not regular. -/
  | other (path : Path)
  deriving DecidableEq, Repr

/-- The package to install, its entries in the order of the walk. `valid` says that the checks of
the plugin's manifest and of the runtime bundle pass. -/
structure Source where
  entries : List SourceEntry
  binary : Nat
  valid : Bool
  deriving DecidableEq, Repr

inductive InstallError where
  | pin (e : PinError)
  | sourceInvalid | versionExists | sourceUnsafe | binaryMismatch | fileExists | versionPinned
  | intentInvalid | changedFiles | missing | rootAmbiguous | quarantineRetained | identityChanged
  | notEmpty
  deriving DecidableEq, Repr

inductive Status where
  | removed | retained | pinned | unknown | cleanupPending
  deriving DecidableEq, Repr

/-! ## Trees -/

namespace Tree

def file? (t : Tree) (p : Path) : Option ManifestFile := t.files.find? fun f => f.path = p

def isEmpty (t : Tree) : Bool := t.files.isEmpty && t.dirs.isEmpty && t.manifest.isNone

/-- The tree without a file. -/
def eraseFile (t : Tree) (p : Path) : Tree :=
  { t with files := t.files.filter fun f => f.path ≠ p }

/-- What lies below a directory. -/
def below (t : Tree) (p : Path) : Tree :=
  { inode := 0, files := t.files.filter fun f => p.isPrefixOf f.path,
    dirs := t.dirs.filter fun d => p.isPrefixOf d && d ≠ p }

/-- The tree without a directory. -/
def eraseDir (t : Tree) (p : Path) : Tree :=
  { t with files := t.files.filter fun f => ! p.isPrefixOf f.path,
           dirs := t.dirs.filter fun d => ! p.isPrefixOf d }

end Tree

/-- `knownDirectories`: the directories above the files. -/
def Manifest.knows (m : Manifest) (d : Path) : Bool :=
  m.files.any fun f => d.isPrefixOf f.path && d ≠ f.path

/-- `matchesManifestIdentity`, and the digest. -/
def matchesManifest (f g : ManifestFile) : Bool := g.stamp = f.stamp && g.sha = f.sha

def Tree.changed (t : Tree) (allowMissing : Bool) (f : ManifestFile) : Bool :=
  match t.file? f.path with
  | none => ! allowMissing
  | some g => ! matchesManifest f g

/-- `changedFiles`. -/
def changedFiles (t : Tree) (m : Manifest) (allowMissing : Bool) : List Path :=
  let changed := m.files.filter (t.changed allowMissing)
  let unknownDirs := t.dirs.filter fun d => ! m.knows d
  let unknown := t.files.filter fun f => ! m.files.any fun g => g.path = f.path
  changed.map ManifestFile.path ++ unknownDirs ++ unknown.map ManifestFile.path

def pathText (p : Path) : String := "/".intercalate p

/-- The order in which directories are removed. -/
def Deeper (p q : Path) : Prop :=
  q.length < p.length ∨ q.length = p.length ∧ pathText q ≤ pathText p

instance (p q : Path) : Decidable (Deeper p q) := inferInstanceAs (Decidable (_ ∨ _))

/-- `captureKnownDirectories`, in the order in which they are removed. -/
def captureKnownDirectories (t : Tree) (m : Manifest) : List Path :=
  (t.dirs.filter m.knows).insertionSort Deeper

/-! ## Records -/

def binaryPath : Path := ["bin", "codex-orchestrator"]

section
variable (sha : Manifest → Nat)

/-- `verifyInstalledVersion`. -/
def verifyInstalled (version : String) (x : VersionFiles) : Bool :=
  match x.root, x.receipt with
  | some t, some (.whole r) => match t.manifest with
    | some m =>
      m.version = version && (r.version = version && r.manifestSHA = sha m) &&
        (t.file? binaryPath).map ManifestFile.sha = some m.binarySHA &&
        (changedFiles t m false).isEmpty
    | none => false
  | _, _ => false

/-- `readUninstallIntent`. -/
def readUninstallIntent (version : String) :
    Option (Written Intent) → Except InstallError (Option Intent)
  | none => .ok none
  | some .invalid => .error .intentInvalid
  | some (.whole i) =>
    if i.version = version ∧ i.manifest.version = version then .ok (some i)
    else .error .intentInvalid

/-- `checkPins`. -/
def checkPins (version : String) (pins : List (String × PinFile)) : Option InstallError :=
  let bad := (pins.insertionSort fun a b => a.1 ≤ b.1).find? fun entry => match entry.2 with
    | .invalid => true
    | .whole p => p.version = version
  match bad with
  | none => none
  | some (_, .invalid) => some (.pin .pinInvalid)
  | some (_, .whole _) => some .versionPinned

end
end Orchestrator.Install
