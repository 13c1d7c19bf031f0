import Orchestrator.Library.Interaction

/-!
# Git commands, files and the journal

What `gitops.go` asks of its surroundings, each question with any answer, and the functions on
git commands that its operations share.
-/
namespace Orchestrator.Gitops
open Library

/-! ## Data -/

inductive Code where
  | reviewMismatch | targetDirty | collision | targetDrift | unknownObject | identityChanged
  | gitFailure | invalidInput
  deriving DecidableEq, Repr

/-- `error`; those of commands and of calls are numbers. -/
inductive Err where
  | raw (n : Nat)
  | text (s : String)
  | fail (code : Code) (op : String) (cause : Option Err)
  | join (first second : Err)

/-- `fail`. -/
def fail (code : Code) (op : String) (text : String) : Err := .fail code op (some (.text text))

/-- `CommandResult`, its output trimmed, and the error of `run`, which comes with every exit code
that is not zero. -/
structure Ran where
  stdout : String := ""
  stderr : String := ""
  exitCode : Int := 0
  pid : Int := 0
  error : Option Err := none
  exits : exitCode ≠ 0 → error.isSome = true := by decide

structure DirectoryIdentity where
  device : Int := 0
  inode : Int := 0
  mode : Int := 0
  uid : Int := 0
  deriving DecidableEq, Repr

structure FileIdentity where
  device : Int
  inode : Int
  mode : Int
  size : Int
  modUnixNano : Int
  deriving DecidableEq, Repr

/-- What `os.SameFile` compares. -/
structure FileId where
  device : Int
  inode : Int
  deriving DecidableEq, Repr

abbrev Files := List (String × FileIdentity)

/-- `os.Stat` and `os.Lstat`. -/
inductive Stat where
  | found (file : FileId)
  | notExist
  | error (e : Err)

inductive IntegrationState where
  | integrated | rejected | uncertain
  deriving DecidableEq, Repr

inductive CleanupState where
  | removed | pending
  deriving DecidableEq, Repr

structure ReviewBinding where
  targetWorktreeIdentity : String
  targetDirectoryIdentity : DirectoryIdentity
  targetRef : String
  targetBaseOID : String
  finalCandidateOID : String
  orderedInputOIDs : List String
  validationDigest : String
  planRevision : Int
  reviewRevision : Int

structure IntegrationIntent where
  targetWorktree : String
  targetRef : String
  targetBaseOID : String
  candidateOID : String
  targetIdentity : String
  initialHEAD : String
  initialIndexTree : String
  untrackedIgnored : List String
  validationDigest : String
  planRevision : Int
  reviewRevision : Int

structure IntegrationOutcome where
  state : IntegrationState
  code : Option Code := none
  targetHEAD : String := ""
  candidateOID : String
  targetWorktree : String
  gitExitCode : Int := 0
  processPID : Int := 0

structure CleanupIntent where
  root : String
  attemptID : String
  candidateOID : String
  rootIdentity : String
  privateRef : String
  privateRefExpectedOID : String

structure CleanupOutcome where
  state : CleanupState
  code : Option Code := none
  root : String
  removedFiles : Nat := 0
  privateRef : String
  privateRefState : String := ""

/-- `cleanupAdmin`: the administrative directory of a worktree, with its handles. -/
structure CleanupAdmin where
  name : String
  rootInfo : FileId
  files : Files

/-! ## Operations -/

inductive Hook where
  | beforeMerge | beforeRemove
  | afterQuarantine (path : String)
  | beforeAnchoredRemove (path : String)

inductive Op where
  | git (dir : String) (args : List String)
  | canonicalPath (path : String)
  | noSymlinkComponents (path : String)
  | directoryIdentity (path : String)
  | lstat (path : String)
  | stat (path : String)
  /-- `os.Open` of a directory and `Stat` of the handle. -/
  | openDir (path : String)
  | acquireIntegrationLock (common : String)
  | writerGone (pid : Int)
  | snapshot (root : String)
  | prepareCleanupAdmin (root common : String)
  | quarantineAt (name label : String)
  | removeAnchoredTree (name : String) (expected : Files) (rootInfo : FileId)
  | hook (h : Hook)
  | persistIntegrationIntent (intent : IntegrationIntent)
  | recordIntegration (out : IntegrationOutcome)
  | persistCleanupIntent (intent : CleanupIntent)
  | recordCleanup (out : CleanupOutcome)

/-- What may be answered; `none` is the error that is none. -/
def Ans : Op → Type
  | .git _ _ => Ran
  | .canonicalPath _ => String
  | .lstat _ | .stat _ => Stat
  | .directoryIdentity _ => Except Err DirectoryIdentity
  | .openDir _ => Except Err FileId
  | .writerGone _ => Bool
  | .snapshot _ => Except Err Files
  | .prepareCleanupAdmin _ _ => Except Err CleanupAdmin
  | .quarantineAt _ _ => Except Err String
  | .noSymlinkComponents _ | .acquireIntegrationLock _ | .removeAnchoredTree _ _ _ | .hook _
  | .persistIntegrationIntent _ | .recordIntegration _ | .persistCleanupIntent _
  | .recordCleanup _ => Option Err

abbrev Event := Exchange Op Ans
abbrev Script (ρ α : Type) := Prog Op Ans ρ α

def ask {ρ : Type} (op : Op) : Script ρ (Ans op) := Prog.call op

/-- `if err != nil { return … }`. -/
def attempt {ρ α : Type} (result : Except Err α) (exit : Err → ρ) : Script ρ α :=
  match result with
  | .ok a => .done a
  | .error e => .exit (exit e)

def ensure {ρ : Type} (p : Prop) [Decidable p] (exit : ρ) : Script ρ Unit :=
  if p then .done () else .exit exit

def attempt? {ρ : Type} (result : Option Err) (exit : Err → ρ) : Script ρ Unit :=
  match result with
  | none => .done ()
  | some e => .exit (exit e)

section
variable {ρ α β : Type} {a : α} {e : Err} {exit : Err → ρ}

@[simp]
theorem attempt_ok {f : α → Script ρ β} : (attempt (.ok a) exit >>= f) = f a := rfl

@[simp]
theorem attempt_error {f : α → Script ρ β} :
    (attempt (.error e) exit >>= f) = .exit (exit e) := rfl

@[simp]
theorem attempt?_none {f : Unit → Script ρ β} : (attempt? none exit >>= f) = f () := rfl

@[simp]
theorem attempt?_some {f : Unit → Script ρ β} :
    (attempt? (some e) exit >>= f) = .exit (exit e) := rfl

end

/-! ## Paths -/

/-- `filepath.Clean` of the components of a path. -/
def cleanParts (rooted : Bool) : List String → List String → List String
  | done, [] => done.reverse
  | done, part :: rest =>
    if part = "" ∨ part = "." then cleanParts rooted done rest
    else if part = ".." then match done with
      | [] => cleanParts rooted (if rooted = true then [] else [".."]) rest
      | last :: before =>
        cleanParts rooted (if last = ".." then ".." :: done else before) rest
    else cleanParts rooted (part :: done) rest

def split (s : String) (sep : Char) : List String :=
  (s.toList.splitOn sep).map String.ofList

/-- `filepath.Clean`. -/
def clean (path : String) : String :=
  let rooted := path.toList.head? = some '/'
  let parts := cleanParts rooted [] (split path '/')
  if rooted = true then "/" ++ "/".intercalate parts
  else if parts = [] then "." else "/".intercalate parts

/-- `filepath.Dir`. -/
def dir (path : String) : String :=
  let upTo := path.toList.reverse.dropWhile (· ≠ '/')
  clean (String.ofList upTo.reverse)

/-- `filepath.Base`. -/
def base (path : String) : String :=
  let trimmed := path.toList.reverse.dropWhile (· = '/')
  if path = "" then "." else if trimmed = [] then "/"
  else String.ofList (trimmed.takeWhile (· ≠ '/')).reverse

/-- `filepath.Join` of two names that are not empty. -/
def join (parent name : String) : String := clean (parent ++ "/" ++ name)

/-- `pathCollision`. -/
def pathCollision (a b : String) : Bool :=
  let a := clean a
  let b := clean b
  a = b || (b ++ "/").isPrefixOf a || (a ++ "/").isPrefixOf b

/-- `unicode.IsSpace`. -/
def isSpace (c : Char) : Bool :=
  let n := c.toNat
  (9 ≤ n && n ≤ 13) || n = 0x20 || n = 0x85 || n = 0xA0 || n = 0x1680 ||
    (0x2000 ≤ n && n ≤ 0x200A) || n = 0x2028 || n = 0x2029 || n = 0x202F || n = 0x205F ||
    n = 0x3000

/-- `strings.Fields`. -/
def fields (s : String) : List String :=
  ((s.toList.splitOnP isSpace).filter (· ≠ [])).map String.ofList

/-! ## Git -/

section
variable {ρ : Type}

/-- `gitText`: the output, or the error. -/
def gitText (dir : String) (args : List String) : Script ρ (Except Err String) := do
  let r : Ran ← ask (.git dir args)
  match r.error with
  | some e => return .error e
  | none =>
    if r.exitCode ≠ 0 then return .error (fail .gitFailure (" ".intercalate args) r.stderr)
    else return .ok r.stdout

def rev (repo arg : String) : Script ρ (Except Err String) :=
  gitText repo ["rev-parse", "--verify", arg]

def canonicalPath (path : String) : Script ρ String := ask (.canonicalPath path)

def isOID (oid : String) : Bool :=
  40 ≤ oid.toList.length && oid.toList.length ≤ 64 &&
    oid.toList.all fun c => ('0' ≤ c && c ≤ '9') || ('a' ≤ c && c ≤ 'f')

/-- `requireOID`. -/
def requireOID (oid : String) : Option Err :=
  if isOID oid = true then none else some (fail .invalidInput "oid" "invalid object id")

/-- `validateRepo`: the root and the common directory. -/
def validateRepo (repo : String) : Script ρ (Except Err (String × String)) := do
  match ← gitText repo ["rev-parse", "--show-toplevel"] with
  | .error e => return .error e
  | .ok root =>
    match ← gitText repo ["rev-parse", "--path-format=absolute", "--git-common-dir"] with
    | .error e => return .error e
    | .ok common =>
      let common ← canonicalPath common
      return .ok (← canonicalPath root, common)

/-- `validateOIDInRepo`. -/
def validateOIDInRepo (repo oid : String) : Script ρ (Option Err) := do
  match requireOID oid with
  | some e => return some e
  | none => match ← rev repo (oid ++ "^\x7bcommit\x7d") with
    | .error e => return some e
    | .ok _ => return none

/-- `candidatePaths`. -/
def candidatePaths (repo oid : String) : Script ρ (Except Err (List String)) := do
  match ← validateOIDInRepo repo oid with
  | some e => return .error e
  | none =>
    match ← gitText repo ["diff-tree", "--root", "--no-commit-id", "--name-only", "-r",
      "--no-renames", oid] with
    | .error e => return .error e
    | .ok text => return .ok (((split text '\n').filter (· ≠ "")).map clean)

/-- `targetStatus`: whether tracked files are changed, and the files that are not tracked. -/
def targetStatus (target : String) : Script ρ (Except Err (Bool × List String)) := do
  match ← gitText target ["status", "--porcelain=v2", "--untracked-files=all",
    "--ignored=matching"] with
  | .error e => return .error e
  | .ok text =>
    let lines := (split text '\n').map fun line => (line.toList.head?, fields line)
    let dirty := lines.any fun line => line.1 = some '1' || line.1 = some '2' || line.1 = some 'u'
    let entries := lines.filterMap fun line =>
      if (line.1 = some '?' ∨ line.1 = some '!') ∧ 1 < line.2.length then line.2.getLast? else none
    return .ok (dirty, entries.mergeSort fun a b => a ≤ b)

/-- `run("merge-base", "--is-ancestor", …)`, of which only the error counts. -/
def isAncestor (repo ancestor oid : String) : Script ρ (Option Err) := do
  let r : Ran ← ask (.git repo ["merge-base", "--is-ancestor", ancestor, oid])
  return r.error

/-- The loop of `operationInProgress`. -/
def anyInProgress (repo : String) : List String → Script ρ Bool
  | [] => return false
  | name :: names => do
    match ← gitText repo ["rev-parse", "--git-path", name] with
    | .error _ => anyInProgress repo names
    | .ok path => do
      let stat : Stat ← ask (.lstat path)
      match stat with
      | .found _ => return true
      | _ => anyInProgress repo names

/-- `operationInProgress`. -/
def operationInProgress (repo : String) : Script ρ Bool :=
  anyInProgress repo ["MERGE_HEAD", "CHERRY_PICK_HEAD", "REVERT_HEAD", "rebase-merge",
    "rebase-apply"]

/-! ## Private refs -/

def isRefStart (c : Char) : Bool :=
  ('A' ≤ c && c ≤ 'Z') || ('a' ≤ c && c ≤ 'z') || ('0' ≤ c && c ≤ '9')

def isRefChar (c : Char) : Bool := isRefStart c || c = '.' || c = '_' || c = '/' || c = '-'

def refSpace : List Char := "refs/orchestrator/g3/".toList

/-- `validatePrivateRef`. -/
def validatePrivateRef (ref : String) : Option Err :=
  let name := ref.toList.drop refSpace.length
  let has := fun part : String => ref.toList.tails.any fun rest => part.toList.isPrefixOf rest
  let ends := fun part : String => part.toList.isSuffixOf ref.toList
  if refSpace.isPrefixOf ref.toList = true ∧ (name.head?.any isRefStart) = true ∧
      name.all isRefChar = true ∧
      ¬ (has ".." || has "//" || has "@\x7b" || ends "/" || ends "." || ends ".lock") = true then
    none
  else some (fail .invalidInput "private-ref" "ref outside managed namespace")

/-- `privateRefOID`: the commit, if there is one. -/
def privateRefOID (repo ref : String) : Script ρ (Except Err (Option String)) := do
  match ← validateRepo repo with
  | .error e => return .error e
  | .ok _ =>
    let r : Ran ← ask (.git repo ["rev-parse", "--verify", "--quiet", ref])
    if r.error.isSome = true ∨ r.exitCode ≠ 0 then
      if r.exitCode = 1 then return .ok none
      else return .error (.fail .gitFailure "rev-parse private-ref" r.error)
    else match requireOID r.stdout with
    | some e => return .error e
    | none => return .ok (some r.stdout)

/-- `DeletePrivateRef`. -/
def deletePrivateRef (repo ref expected : String) : Script ρ (Option Err) := do
  match validatePrivateRef ref with
  | some e => return some e
  | none => match ← validateRepo repo with
    | .error e => return some e
    | .ok _ => match requireOID expected with
      | some e => return some e
      | none => match ← privateRefOID repo ref with
        | .error e => return some e
        | .ok none => return none
        | .ok (some current) =>
          if current ≠ expected then
            return some (fail .targetDrift "delete-ref" "ref changed")
          else do
            let r : Ran ← ask (.git repo ["update-ref", "-d", ref, expected])
            if r.error.isSome = true ∨ r.exitCode ≠ 0 then
              return some (.fail .targetDrift "delete-ref" r.error)
            else match ← privateRefOID repo ref with
            | .error e => return some (.fail .targetDrift "verify-delete-ref" (some e))
            | .ok (some _) => return some (.fail .targetDrift "verify-delete-ref" none)
            | .ok none => return none

end
end Orchestrator.Gitops
