import Orchestrator.Bridge.Attachment
import Orchestrator.Library.Sections

/-!
# Owner capabilities

`OwnerCapabilityStore.bind`, one file operation after another, in the directory of one controller
thread. A generation has a file of its own, created before any other; `current.json` is replaced
by a rename, and is all that the next generation is counted from.
-/
namespace Orchestrator.Bridge
open Library PythonJson

/-- What is kept of a generation: a file holds it, and `current.json` does once more. -/
structure Generation where
  number : Nat
  controllerThreadId : Text
  originContextId : Text
  originPid : Int
  originBirth : Text
  attachmentProofSha256 : Text
  leaseId : Text
  activationId : Text
  ownerAttachment : Attachment
  deriving DecidableEq, Repr

/-- `OwnerCapability`; the path and the name of the generation are those of its number. -/
structure OwnerCapability where
  number : Nat
  controllerThreadId : Text
  originContextId : Text
  originPid : Int
  originBirth : Text
  attachmentProofSha256 : Text
  deriving DecidableEq, Repr

/-- What `bind` computes from the texts of an attachment: the id of the context of its profile
and owner, the SHA-256 of what is persisted of it, and the size of the JSON of a generation. -/
structure Digests where
  originContextId : Text → Text → Text
  proof : Attachment → Text
  size : Generation → Nat

namespace Digests
variable (g : Digests)

def originOf (a : Attachment) : Text := g.originContextId a.profileId a.ownerContextSha256

def generation (a : Attachment) (number : Nat) : Generation where
  number := number
  controllerThreadId := a.controllerThreadId
  originContextId := g.originOf a
  originPid := a.originPid
  originBirth := a.originBirth
  attachmentProofSha256 := g.proof a
  leaseId := a.leaseId
  activationId := a.activationId
  ownerAttachment := a

/-- Whether an attachment is the one of a generation. -/
def same (c : Generation) (a : Attachment) : Prop :=
  c.originPid = a.originPid ∧ c.originBirth = a.originBirth ∧ c.leaseId = a.leaseId ∧
    c.attachmentProofSha256 = g.proof a

instance (c : Generation) (a : Attachment) : Decidable (g.same c a) :=
  inferInstanceAs (Decidable (_ ∧ _))

/-- `_decode`. -/
def decode (c : Generation) : Except BridgeError OwnerCapability :=
  if g.proof c.ownerAttachment = c.attachmentProofSha256 then
    .ok ⟨c.number, c.controllerThreadId, c.originContextId, c.originPid, c.originBirth,
      c.attachmentProofSha256⟩
  else .error .ownerCapability

end Digests

/-- The directory of a controller thread: the generations by their numbers, and the files
`.current-<pid>.tmp`. -/
structure CapabilityDir where
  current : Option (File Generation) := none
  generations : Nat → Option (File Generation) := fun _ => none
  stages : Nat → Option (File Generation) := fun _ => none

/-- The operations of `bind`. -/
inductive BindOp where
  | mkdir | readCurrent
  | readGeneration (current : Generation)
  | create (value : Generation)
  | write (value : Generation)
  | stage (value : Generation)
  | writeStage (value : Generation)
  | rename (value : Generation)
  | sync (value : Generation)
  deriving DecidableEq, Repr

/-- A call of `bind` by a process. -/
structure Bind where
  attachment : Attachment
  pid : Nat
  op : BindOp
  deriving DecidableEq, Repr

abbrev BindLeads := Leads Bind (Except BridgeError OwnerCapability)

def maxGeneration : Nat := 99999999

namespace CapabilityDir

def setGeneration (s : CapabilityDir) (n : Nat) (f : File Generation) : CapabilityDir :=
  { s with generations := Function.update s.generations n (some f) }

def setStage (s : CapabilityDir) (pid : Nat) (f : Option (File Generation)) : CapabilityDir :=
  { s with stages := Function.update s.stages pid f }

end CapabilityDir

/-- What follows once the number of a new generation is known. -/
def Bind.number (g : Digests) (b : Bind) (n : Nat) : BindLeads :=
  if 1 ≤ n ∧ n ≤ maxGeneration then .go { b with op := .create (g.generation b.attachment n) }
  else .done (.error .hostGeneration)

/-- What `bind` does once it has read `current.json`. -/
def Bind.look (g : Digests) (b : Bind) (c : Generation) : BindLeads :=
  if c.controllerThreadId = b.attachment.controllerThreadId ∧
      c.originContextId = g.originOf b.attachment then
    if g.same c b.attachment then .go { b with op := .readGeneration c }
    else b.number g (c.number + 1)
  else .done (.error .originContextChanged)

def Bind.step (g : Digests) (b : Bind) (s : CapabilityDir) : CapabilityDir × BindLeads :=
  match b.op with
  | .mkdir => (s, .go { b with op := .readCurrent })
  | .readCurrent =>
    if s.current = none then (s, b.number g 1)
    else match stableJson g.size s.current with
    | .error e => (s, .done (.error e))
    | .ok c => (s, b.look g c)
  | .readGeneration c => match stableJson g.size (s.generations c.number) with
    | .error e => (s, .done (.error e))
    | .ok c' => (s, .done (if c' = c then g.decode c else .error .ownerCapabilityChanged))
  | .create v =>
    if s.generations v.number = none then
      (s.setGeneration v.number .torn, .go { b with op := .write v })
    else (s, .done (.error .ledgerWrite))
  | .write v => (s.setGeneration v.number (.whole v), .go { b with op := .stage v })
  | .stage v =>
    if s.stages b.pid = none then
      (s.setStage b.pid (some .torn), .go { b with op := .writeStage v })
    else (s, .done (.error .ledgerWrite))
  | .writeStage v => (s.setStage b.pid (some (.whole v)), .go { b with op := .rename v })
  | .rename v =>
    ({ s.setStage b.pid none with current := s.stages b.pid }, .go { b with op := .sync v })
  | .sync v => (s, .done (g.decode v))

/-- The calls with attachments of one controller thread and origin context. -/
structure BindCall (g : Digests) (thread origin : Text) where
  attachment : Attachment
  pid : Nat
  thread_eq : attachment.controllerThreadId = thread
  origin_eq : g.originOf attachment = origin

def bind (g : Digests) (thread origin : Text) :
    Sections CapabilityDir (BindCall g thread origin) Bind
      (Except BridgeError OwnerCapability) where
  start call := ⟨call.attachment, call.pid, .mkdir⟩
  step := Bind.step g

end Orchestrator.Bridge
