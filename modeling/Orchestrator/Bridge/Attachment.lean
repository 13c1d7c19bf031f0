import Orchestrator.Library.PythonJson
import Orchestrator.Library.Guarded

/-!
# Attachments and the files of the bridge

`bridge.py`: a controller that is attached through the native service, and the files that the
bridge keeps for it. A file is created under a name of its own before its text is written, so a
process that dies may leave a part of it.
-/
namespace Orchestrator.Bridge
open Library PythonJson

/-- `OwnerAttachment`. The identities of the two peers, which the bridge only passes on, are the
JSON that they are printed as. -/
structure Attachment where
  profileId : Text
  controllerThreadId : Text
  controllerEpoch : Int
  ownerContextSha256 : Text
  leaseId : Text
  ownerConnectionId : Text
  activationId : Text
  manifestSha256 : Text
  helperGrantSha256 : Text
  serviceIdentity : Text
  backendIdentity : Text
  privateSocket : Text
  privateSocketIdentity : List Int
  originPid : Int
  originBirth : Text
  originExecutable : Text
  originExecutableSha256 : Text
  deriving DecidableEq, Repr

/-- An attachment for examples. -/
def toyAttachment : Attachment where
  profileId := text "p"
  controllerThreadId := text "t"
  controllerEpoch := 1
  ownerContextSha256 := []
  leaseId := text "l"
  ownerConnectionId := []
  activationId := []
  manifestSha256 := []
  helperGrantSha256 := []
  serviceIdentity := []
  backendIdentity := []
  privateSocket := []
  privateSocketIdentity := []
  originPid := 100
  originBirth := []
  originExecutable := []
  originExecutableSha256 := []

/-- A file of JSON, which is not all there while it is being written. -/
inductive File (α : Type) where
  | torn
  | whole (a : α)
  deriving DecidableEq, Repr

/-- The codes of a `BridgeError`. -/
inductive BridgeError where
  | eventsShape | eventOwner | eventIdentity | eventRevision | eventDeliveryClass
  | eventAliasConflict
  | ledgerMissing | ledgerFile | ledgerWrite
  /-- `ledger_file` for a file that is empty, `ledger_json` for one with a part of its text. -/
  | ledgerTorn
  | originContextChanged | ownerCapabilityChanged | ownerCapability | hostGeneration
  | deliveryId | deliveryMissing | deliveryConflict | deliverySlotBusy | deliverySlotUncertain
  | deliveryChanged | deliveryOwnerChanged | deliveryEpochChanged | intentHash | claimChanged
  | sourceMapping | historyProof | deliveryTransition | nativeTurnChanged
  /-- A text that has no encoding, or a directory that is there already. -/
  | system
  deriving DecidableEq, Repr

/-- The default of `maximum` in `_stable_json`. -/
def maxJson : Nat := 128 * 1024

/-- `_stable_json`, where a text that is whole has the size given. -/
def stableJson {α : Type} (size : α → Nat) : Option (File α) → Except BridgeError α
  | none => .error .ledgerMissing
  | some .torn => .error .ledgerTorn
  | some (.whole a) => if size a ≤ maxJson then .ok a else .error .ledgerFile

section
variable {α : Type} {size : α → Nat} {f : Option (File α)} {a : α}

theorem stableJson_ok : stableJson size f = .ok a ↔ f = some (.whole a) ∧ size a ≤ maxJson := by
  constructor
  · intro h
    match f, h with
    | some (.whole b), h =>
      rw [stableJson] at h
      split at h
      next hsize =>
        cases h
        exact ⟨rfl, hsize⟩
      · cases h
  · rintro ⟨rfl, hsize⟩
    exact if_pos hsize

end
end Orchestrator.Bridge
