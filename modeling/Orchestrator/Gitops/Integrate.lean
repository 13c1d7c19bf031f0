import Orchestrator.Gitops.Commands

/-!
# Integration and cleanup

`Integrate` and `Cleanup` of `gitops.go`: checks, the intent, side effects, and the record of what
came of them. Handles and locks that are released on return are not shown.
-/
namespace Orchestrator.Gitops
open Library

/-- A hook of a request, if it is set. -/
def callHook {ρ : Type} (set : Bool) (h : Hook) : Script ρ (Option Err) :=
  if set = true then ask (.hook h) else return none

/-! ## Integration -/

structure IntegrationRequest where
  repoRoot : String
  targetWorktree : String
  targetRef : String
  targetBaseOID : String
  candidateOID : String
  review : ReviewBinding
  hasJournal : Bool
  hasBeforeMerge : Bool

abbrev Integrated := IntegrationOutcome × Option Err

/-- `validateReview`. -/
def validateReview (req : IntegrationRequest) : Script Integrated (Option Err) := do
  if req.hasJournal = false ∨ req.targetWorktree = "" ∨ req.targetRef = "" ∨
      req.candidateOID = "" then
    return some (fail .invalidInput "review" "missing integration input")
  else do
    let r := req.review
    let target ← canonicalPath req.targetWorktree
    if r.targetWorktreeIdentity ≠ target ∨ r.targetRef ≠ req.targetRef ∨
        r.targetBaseOID ≠ req.targetBaseOID ∨ r.finalCandidateOID ≠ req.candidateOID ∨
        r.validationDigest = "" ∨ r.planRevision ≤ 0 ∨ r.reviewRevision ≤ 0 ∨
        r.targetDirectoryIdentity = {} then
      return some (fail .reviewMismatch "review" "review binding mismatch")
    else if r.orderedInputOIDs = [] then
      return some (fail .reviewMismatch "review" "missing ordered inputs")
    else return none

/-- The loop over the inputs of the candidate. -/
def checkInputs (req : IntegrationRequest) (out : IntegrationOutcome) :
    List String → Script Integrated Unit
  | [] => return ()
  | input :: inputs => do
    attempt? (← isAncestor req.repoRoot input req.candidateOID)
      fun e => (out, some (.fail .reviewMismatch "dependency" (some e)))
    checkInputs req out inputs

def treeOf (commit : String) : String := commit ++ "^\x7btree\x7d"

/-- What the checks have found. -/
structure Checked where
  base : String
  entries : List String
  initialIndex : String

/-- The checks of `Integrate`. -/
def checkTarget (req : IntegrationRequest) (out : IntegrationOutcome) :
    Script Integrated Checked := do
  let exit := fun e => (out, some e)
  attempt? (← validateReview req) exit
  let (root, targetCommon) ← attempt (← validateRepo req.targetWorktree) exit
  let (_, repoCommon) ← attempt (← validateRepo req.repoRoot) exit
  let target ← canonicalPath req.targetWorktree
  ensure (root = target ∧ targetCommon = repoCommon)
    (out, some (fail .invalidInput "target" "repository identity mismatch"))
  let identity : Except Err DirectoryIdentity ← ask (.directoryIdentity req.targetWorktree)
  ensure (identity.toOption = some req.review.targetDirectoryIdentity)
    (out, some (fail .targetDrift "target identity" "directory identity changed"))
  attempt? (← ask (.acquireIntegrationLock targetCommon)) exit
  let ref ← gitText req.targetWorktree ["symbolic-ref", "-q", "HEAD"]
  match ref with
  | .error e => .exit (out, some (.fail .targetDrift "target ref" (some e)))
  | .ok ref => ensure (ref = req.targetRef) (out, some (.fail .targetDrift "target ref" none))
  let base ← attempt (← rev req.targetWorktree "HEAD") exit
  ensure (base = req.targetBaseOID) (out, some (fail .targetDrift "target base" "head drift"))
  ensure ((← operationInProgress req.targetWorktree) = false)
    (out, some (fail .targetDirty "operation" "git operation in progress"))
  let (dirty, entries) ← attempt (← targetStatus req.targetWorktree) exit
  ensure (dirty = false) (out, some (fail .targetDirty "status" "tracked/index changes"))
  let paths ← attempt (← candidatePaths req.repoRoot req.candidateOID) exit
  checkInputs req out req.review.orderedInputOIDs
  ensure (entries.any (fun entry => paths.any (pathCollision entry)) = false)
    (out, some (fail .collision "collision" "candidate path collides"))
  attempt? (← isAncestor req.targetWorktree req.targetBaseOID req.candidateOID)
    fun e => (out, some (.fail .reviewMismatch "fast-forward" (some e)))
  let _ ← attempt (← rev req.targetWorktree (treeOf "HEAD")) exit
  let initialIndex ← attempt (← gitText req.targetWorktree ["write-tree"])
    fun e => (out, some (.fail .targetDirty "index" (some e)))
  return { base, entries, initialIndex }

/-- `recordIntegration`: the error that is returned. -/
def recordIntegration (out : IntegrationOutcome) (cause : Err) : Script Integrated Integrated := do
  let result : Option Err ← ask (.recordIntegration out)
  match result with
  | some e => return (out, some (.join cause e))
  | none => return (out, some cause)

/-- What is seen of the target after the merge. -/
structure Seen where
  head : Except Err String
  status : Except Err (Bool × List String)
  ref : Except Err String
  tree : Except Err String
  index : Except Err String

def inspect (req : IntegrationRequest) : Script Integrated Seen := do
  let head ← rev req.targetWorktree "HEAD"
  let status ← targetStatus req.targetWorktree
  let ref ← gitText req.targetWorktree ["symbolic-ref", "-q", "HEAD"]
  let tree ← rev req.targetWorktree (treeOf "HEAD")
  let index ← gitText req.targetWorktree ["write-tree"]
  return { head, status, ref, tree, index }

/-- The condition under which the merge counts. -/
def Seen.proves (s : Seen) (req : IntegrationRequest) (candidateTree : String) : Bool :=
  match s.head, s.status, s.ref, s.tree, s.index with
  | .ok head, .ok (dirty, _), .ok ref, .ok tree, .ok index =>
    ref = req.targetRef && head = req.candidateOID && tree = candidateTree && index = tree && !dirty
  | _, _, _, _, _ => false

/-- The head or the status could not be read. -/
def Seen.unseen (s : Seen) : Bool :=
  match s.head, s.status with
  | .ok _, .ok _ => false
  | _, _ => true

def textOf (result : Except Err String) : String :=
  match result with
  | .ok s => s
  | .error _ => ""

def mergeArgs (oid : String) : List String :=
  ["merge", "--ff-only", "--no-autostash", "--no-overwrite-ignore", oid]

/-- The merge, and what is recorded of it. -/
def merge (req : IntegrationRequest) (out : IntegrationOutcome) (candidateTree : String) :
    Script Integrated Integrated := do
  let r : Ran ← ask (.git req.targetWorktree (mergeArgs req.candidateOID))
  let out := { out with processPID := r.pid, gitExitCode := r.exitCode }
  let s ← inspect req
  if r.error.isNone = true ∧ r.exitCode = 0 ∧ s.proves req candidateTree = true then do
    let out := { out with state := .integrated, code := none, targetHEAD := textOf s.head }
    let result : Option Err ← ask (.recordIntegration out)
    match result with
    | some e => return ({ out with state := .uncertain }, some e)
    | none => return (out, none)
  else do
    let code := if s.unseen = true then .targetDrift else .gitFailure
    let out := { out with state := .uncertain, code := some code, targetHEAD := textOf s.head }
    recordIntegration out (fail .targetDrift "post-merge" "merge outcome not proven")

/-- `Integrate`, from the intent on. -/
def mergeTarget (req : IntegrationRequest) (out : IntegrationOutcome) (base : String)
    (candidateTree : String) : Script Integrated Integrated := do
  match ← callHook req.hasBeforeMerge .beforeMerge with
  | some e => recordIntegration out e
  | none => do
    let ref ← gitText req.targetWorktree ["symbolic-ref", "-q", "HEAD"]
    let head ← rev req.targetWorktree "HEAD"
    if ref.toOption = some req.targetRef ∧ head.toOption = some base then
      merge req out candidateTree
    else do
      let code := some Code.targetDrift
      recordIntegration { out with state := .uncertain, code := code, targetHEAD := textOf head }
        (fail .targetDrift "pre-merge" "target changed")

def integrationIntent (req : IntegrationRequest) (identity : String) (c : Checked) :
    IntegrationIntent where
  targetWorktree := req.targetWorktree
  targetRef := req.targetRef
  targetBaseOID := req.targetBaseOID
  candidateOID := req.candidateOID
  targetIdentity := identity
  initialHEAD := c.base
  initialIndexTree := c.initialIndex
  untrackedIgnored := c.entries
  validationDigest := req.review.validationDigest
  planRevision := req.review.planRevision
  reviewRevision := req.review.reviewRevision

/-- `Integrate`. -/
def integrate (req : IntegrationRequest) : Script Integrated Integrated := do
  let out : IntegrationOutcome :=
    { state := .rejected, candidateOID := req.candidateOID, targetWorktree := req.targetWorktree }
  let c ← checkTarget req out
  let candidateTree ← attempt (← rev req.repoRoot (treeOf req.candidateOID))
    fun e => (out, some e)
  let identity ← canonicalPath req.targetWorktree
  attempt? (← ask (.persistIntegrationIntent (integrationIntent req identity c)))
    fun e => (out, some e)
  mergeTarget req out c.base candidateTree

/-! ## Cleanup -/

structure MaterializeReceipt where
  attemptID : String
  repoRoot : String
  commonDir : String
  commitOID : String
  worktreeIdentity : String
  rootIdentity : DirectoryIdentity
  files : Files

structure CandidateReceipt where
  attemptID : String
  repoRoot : String
  commonDir : String
  candidateOID : String
  worktreeIdentity : String
  rootIdentity : DirectoryIdentity
  files : Files
  privateRef : String
  privateRefExpectedOID : String

structure CleanupRequest where
  root : String
  receipt : MaterializeReceipt
  candidateReceipt : Option CandidateReceipt
  activePIDs : List Int
  hasJournal : Bool
  hasBeforeRemove : Bool
  hasAfterQuarantine : Bool
  hasBeforeAnchoredRemove : Bool

/-- `cleanupReceiptBinding`. -/
structure CleanupReceipt where
  attemptID : String := ""
  repoRoot : String := ""
  commonDir : String := ""
  commitOID : String := ""
  worktreeIdentity : String := ""
  rootIdentity : DirectoryIdentity := {}
  files : Files := []
  privateRef : String := ""
  privateRefExpectedOID : String := ""

/-- `cleanupReceipt`. -/
def cleanupReceipt (req : CleanupRequest) : Except Err CleanupReceipt :=
  let refused := fail .invalidInput "cleanup" "exactly one receipt is required"
  match req.candidateReceipt with
  | none =>
    let r := req.receipt
    if r.worktreeIdentity = "" then .error refused
    else .ok { attemptID := r.attemptID, repoRoot := r.repoRoot, commonDir := r.commonDir,
               commitOID := r.commitOID, worktreeIdentity := r.worktreeIdentity,
               rootIdentity := r.rootIdentity, files := r.files }
  | some c =>
    if req.receipt.worktreeIdentity ≠ "" then .error refused
    else .ok { attemptID := c.attemptID, repoRoot := c.repoRoot, commonDir := c.commonDir,
               commitOID := c.candidateOID, worktreeIdentity := c.worktreeIdentity,
               rootIdentity := c.rootIdentity, files := c.files, privateRef := c.privateRef,
               privateRefExpectedOID := c.privateRefExpectedOID }

abbrev Cleaned := CleanupOutcome × Option Err

/-- `recordCleanup`: the error that is returned. -/
def recordCleanup (out : CleanupOutcome) (cause : Option Err) : Script Cleaned Cleaned := do
  let result : Option Err ← ask (.recordCleanup out)
  match result, cause with
  | some e, some cause => return (out, some (.join cause e))
  | some e, none => return (out, some e)
  | none, cause => return (out, cause)

/-- A failure between the intent and the end. -/
def failCleanup (out : CleanupOutcome) (code : Code) (cause : Err) : Script Cleaned Cleaned :=
  recordCleanup { out with code := some code } (some cause)

def cleanupIntent (req : CleanupRequest) (r : CleanupReceipt) : CleanupIntent where
  root := req.root
  attemptID := r.attemptID
  candidateOID := r.commitOID
  rootIdentity := r.worktreeIdentity
  privateRef := r.privateRef
  privateRefExpectedOID := r.privateRefExpectedOID

/-- The checks of the private ref of a receipt. -/
def checkPrivateRef (out : CleanupOutcome) (r : CleanupReceipt) : Script Cleaned Unit := do
  let exit := fun e => (out, some e)
  ensure (r.privateRef = "" ↔ r.privateRefExpectedOID = "")
    (out, some (fail .invalidInput "cleanup" "incomplete private ref binding"))
  if r.privateRef = "" then return ()
  else do
    attempt? (validatePrivateRef r.privateRef) exit
    attempt? (requireOID r.privateRefExpectedOID) exit
    match ← validateRepo r.repoRoot with
    | .error e =>
      .exit (out, some (.fail .identityChanged "cleanup private-ref repository" (some e)))
    | .ok (root, common) =>
      let expected ← canonicalPath r.repoRoot
      ensure (root = expected ∧ common = r.commonDir)
        (out, some (.fail .identityChanged "cleanup private-ref repository" none))

/-- What `Cleanup` does where the root is gone. -/
def cleanupMissing (req : CleanupRequest) (out : CleanupOutcome) (r : CleanupReceipt) :
    Script Cleaned Cleaned := do
  if r.privateRef = "" then recordCleanup { out with state := .removed } none
  else do
    attempt? (← ask (.persistCleanupIntent (cleanupIntent req r))) fun e => (out, some e)
    match ← deletePrivateRef r.repoRoot r.privateRef r.privateRefExpectedOID with
    | some e => failCleanup out .targetDrift e
    | none => recordCleanup { out with state := .removed, privateRefState := "deleted" } none

/-- The loop over the process ids: none of them may be alive or unknown. -/
def checkWriters (out : CleanupOutcome) : List Int → Script Cleaned Unit
  | [] => return ()
  | pid :: pids => do
    if 0 < pid then do
      let gone : Bool ← ask (.writerGone pid)
      ensure (gone = true) (out, some (fail .unknownObject "cleanup" "writer alive or unknown"))
    checkWriters out pids

/-- What is held from before the intent on. -/
structure Held where
  identity : DirectoryIdentity
  rootInfo : FileId
  admin : CleanupAdmin

/-- The path shows the file. -/
def Stat.shows (info : FileId) : Stat → Bool
  | .found file => decide (file = info)
  | _ => false

/-- `Cleanup`, from the check that the root is there up to the intent. -/
def holdRoot (req : CleanupRequest) (out : CleanupOutcome) (r : CleanupReceipt) :
    Script Cleaned Held := do
  let exit := fun e => (out, some e)
  let identity ← attempt (← ask (.directoryIdentity req.root)) exit
  ensure (r.rootIdentity = {} ∨ identity = r.rootIdentity)
    (out, some (fail .identityChanged "cleanup" "root inode changed"))
  let rootInfo ← attempt (← ask (.openDir req.root)) exit
  let path : Stat ← ask (.stat req.root)
  ensure (path.shows rootInfo = true)
    (out, some (fail .identityChanged "cleanup" "root handle changed"))
  let _ ← attempt (← ask (.openDir (dir req.root))) exit
  let admin ← attempt (← ask (.prepareCleanupAdmin req.root r.commonDir)) exit
  attempt? (← ask (.acquireIntegrationLock r.commonDir)) exit
  checkWriters out req.activePIDs
  return { identity, rootInfo, admin }

/-- The entry of the loop over the inventory that is not as the receipt has it. -/
def unowned (r : CleanupReceipt) : Files → Option (Code × String)
  | [] => none
  | (path, id) :: rest => match r.files.lookup path with
    | none => some (.unknownObject, "unowned entry")
    | some expected => if id ≠ expected then some (.identityChanged, "entry changed")
      else unowned r rest

/-- The private ref of a receipt, if it has one, is deleted. -/
def deleteOwnRef (r : CleanupReceipt) : Script Cleaned (Option Err) :=
  if r.privateRef = "" then return none
  else deletePrivateRef r.repoRoot r.privateRef r.privateRefExpectedOID

/-- `Cleanup`, once the root and the administrative directory are gone. -/
def finishCleanup (req : CleanupRequest) (out : CleanupOutcome) (r : CleanupReceipt)
    (removed : Nat) : Script Cleaned Cleaned := do
  let last : Stat ← ask (.lstat req.root)
  match last with
  | .found _ =>
    failCleanup out .unknownObject
      (fail .unknownObject "cleanup" "worktree path recreated and retained")
  | .error e => return (out, some e)
  | .notExist => do
    match ← deleteOwnRef r with
    | some e => failCleanup out .targetDrift e
    | none => do
      let state := if r.privateRef = "" then out.privateRefState else "deleted"
      let out := { out with
        privateRefState := state, state := .removed, code := none, removedFiles := removed }
      let result : Option Err ← ask (.recordCleanup out)
      match result with
      | some e => return ({ out with state := .pending }, some e)
      | none => return (out, none)

/-- `Cleanup`, from the quarantine of the root on. -/
def removeRoot (req : CleanupRequest) (out : CleanupOutcome) (r : CleanupReceipt) (h : Held)
    (current : Files) : Script Cleaned Cleaned := do
  let quarantined : Except Err String ← ask (.quarantineAt (base req.root) ".g3-quarantine-")
  match quarantined with
  | .error e => failCleanup out .unknownObject e
  | .ok name => do
    let quarantine := join (dir req.root) name
    let moved : Stat ← ask (.stat quarantine)
    let same := match moved with
      | .found file => decide (file = h.rootInfo)
      | _ => false
    if same = false then
      failCleanup out .identityChanged
        (fail .identityChanged "cleanup" "quarantine identity changed")
    else match ← callHook req.hasAfterQuarantine (.afterQuarantine quarantine) with
    | some e => failCleanup out .unknownObject e
    | none => match ← callHook req.hasBeforeAnchoredRemove (.beforeAnchoredRemove quarantine) with
      | some e => failCleanup out .unknownObject e
      | none => do
        let failed : Option Err ← ask (.removeAnchoredTree name current h.rootInfo)
        match failed with
        | some e => failCleanup out .unknownObject e
        | none => do
          let admin : Except Err String ← ask (.quarantineAt h.admin.name ".g3-admin-quarantine-")
          match admin with
          | .error e => failCleanup out .unknownObject e
          | .ok admin => do
            let failed : Option Err ← ask (.removeAnchoredTree admin h.admin.files h.admin.rootInfo)
            match failed with
            | some e => failCleanup out .unknownObject e
            | none => finishCleanup req out r current.length

/-- The private ref is still that of the receipt; the error otherwise. -/
def checkRefAfterIntent (r : CleanupReceipt) : Script Cleaned (Option Err) := do
  if r.privateRef = "" then return none
  else match ← privateRefOID r.repoRoot r.privateRef with
  | .error e => return some e
  | .ok current =>
    if current = some r.privateRefExpectedOID then return none
    else return some (fail .targetDrift "cleanup private-ref" "ref changed")

/-- `Cleanup`, from the intent up to the quarantine. -/
def classifyRoot (req : CleanupRequest) (out : CleanupOutcome) (r : CleanupReceipt) (h : Held) :
    Script Cleaned Cleaned := do
  match ← checkRefAfterIntent r with
  | some e => failCleanup out .targetDrift e
  | none => do
    let current : Except Err Files ← ask (.snapshot req.root)
    match current with
    | .error e => failCleanup out .unknownObject e
    | .ok current => do
      let latest : Except Err DirectoryIdentity ← ask (.directoryIdentity req.root)
      if latest.toOption ≠ some h.identity then
        failCleanup out .identityChanged
          (fail .identityChanged "cleanup" "root changed after inventory")
      else match unowned r current with
      | some (code, text) => failCleanup out code (fail code "cleanup" text)
      | none => match ← callHook req.hasBeforeRemove .beforeRemove with
        | some e => failCleanup out .identityChanged e
        | none => do
          let latest : Except Err DirectoryIdentity ← ask (.directoryIdentity req.root)
          if latest.toOption ≠ some h.identity then
            failCleanup out .identityChanged
              (fail .identityChanged "cleanup" "root changed before remove")
          else do
            let linked : Option Err ← ask (.noSymlinkComponents (dir req.root))
            match linked with
            | some e => failCleanup out .unknownObject e
            | none => removeRoot req out r h current

/-- `Cleanup`. -/
def cleanup (req : CleanupRequest) : Script Cleaned Cleaned := do
  let receipt := cleanupReceipt req
  let r := receipt.toOption.getD {}
  let out : CleanupOutcome := { state := .pending, root := req.root, privateRef := r.privateRef }
  let exit := fun e => (out, some e)
  let _ ← attempt receipt exit
  ensure (req.hasJournal = true ∧ req.root ≠ "" ∧ r.worktreeIdentity ≠ "")
    (out, some (fail .invalidInput "cleanup" "missing cleanup input"))
  checkPrivateRef out r
  let state := if r.privateRef = "" then "" else "retained"
  let out := { out with privateRefState := state }
  attempt? (← ask (.noSymlinkComponents req.root)) fun e => (out, some e)
  let root ← canonicalPath req.root
  ensure (root = r.worktreeIdentity) (out, some (fail .identityChanged "cleanup" "root identity"))
  let stat : Stat ← ask (.stat req.root)
  match stat with
  | .notExist => cleanupMissing req out r
  | .error e => return (out, some e)
  | .found _ => do
    let held ← holdRoot req out r
    attempt? (← ask (.persistCleanupIntent (cleanupIntent req r))) fun e => (out, some e)
    classifyRoot req out r held

end Orchestrator.Gitops
