import Mathlib.Logic.Function.Basic

/-!
# Pins

`PinVersion` and `UnpinVersion`, and the two calls that derive the installed version from the
running binary. What the file system and the other processes decide in a call is given with it.
-/
namespace Orchestrator.Install

/-- `idPattern`. -/
def isId (s : String) : Bool :=
  1 ≤ s.length && s.length ≤ 128 && s.toList.all fun c =>
    ('A' ≤ c && c ≤ 'Z') || ('a' ≤ c && c ≤ 'z') || ('0' ≤ c && c ≤ '9') || c = '_' || c = '.' ||
      c = '-'

structure Pin where
  taskId : String
  version : String
  deriving DecidableEq, Repr

/-- A file of the pins directory; `invalid` is one that `readPin` refuses. -/
inductive PinFile where
  | invalid
  | whole (p : Pin)
  deriving DecidableEq, Repr

/-- The pins directory, by task ids. -/
abbrev Pins := String → Option PinFile

inductive PinError where
  | runningPackageInvalid | pinInvalid | installLocked | directoryUnsafe | installedVersionInvalid
  | pinConflict | io
  deriving DecidableEq, Repr

/-- `readPin`. -/
def readPin : Option PinFile → Except PinError (Option Pin)
  | none => .ok none
  | some .invalid => .error .pinInvalid
  | some (.whole p) => .ok (some p)

/-- What `writeExclusive` does where nothing is: it may fail before the file is there, or leave
what it has written of it. -/
inductive Writing where
  | absent
  | left (f : PinFile)
  | written
  deriving DecidableEq, Repr

/-- What is found by a call of `PinRunningVersion`: that the binary is one of an installed
package, that the lock is free, that the directories are private, that the version is the one
that was installed, and what becomes of the writing and of the sync. -/
structure PinCall where
  identity : Bool
  lock : Bool
  directories : Bool
  installed : Bool
  writing : Writing
  sync : Bool
  deriving DecidableEq, Repr

structure UnpinCall where
  identity : Bool
  lock : Bool
  directories : Bool
  remove : Bool
  sync : Bool
  deriving DecidableEq, Repr

/-- `PinVersion`, of a version that matches `versionPattern`. -/
def pinVersion (version taskId : String) (call : PinCall) (s : Pins) :
    Except PinError Unit × Pins :=
  if ¬ isId taskId = true then (.error .pinInvalid, s)
  else if ¬ call.lock = true then (.error .installLocked, s)
  else if ¬ call.directories = true then (.error .directoryUnsafe, s)
  else if ¬ call.installed = true then (.error .installedVersionInvalid, s)
  else match readPin (s taskId) with
    | .error e => (.error e, s)
    | .ok (some active) =>
      (if active.taskId = taskId ∧ active.version = version then .ok () else .error .pinConflict, s)
    | .ok none => match call.writing with
      | .absent => (.error .io, s)
      | .left f => (.error .io, Function.update s taskId (some f))
      | .written => (if call.sync = true then .ok () else .error .io,
          Function.update s taskId (some (.whole ⟨taskId, version⟩)))

/-- `UnpinVersion`. -/
def unpinVersion (taskId : String) (call : UnpinCall) (s : Pins) : Except PinError Unit × Pins :=
  if ¬ isId taskId = true then (.error .pinInvalid, s)
  else if ¬ call.lock = true then (.error .installLocked, s)
  else if ¬ call.directories = true then (.error .directoryUnsafe, s)
  else match readPin (s taskId) with
    | .error e => (.error e, s)
    | .ok none => (.ok (), s)
    | .ok (some active) =>
      if active.taskId ≠ taskId then (.error .pinConflict, s)
      else if ¬ call.remove = true then (.error .io, s)
      else (if call.sync = true then .ok () else .error .io, Function.update s taskId none)

def pinRunningVersion (version taskId : String) (call : PinCall) (s : Pins) :
    Except PinError Unit × Pins :=
  if call.identity = true then pinVersion version taskId call s
  else (.error .runningPackageInvalid, s)

def unpinRunningVersion (taskId : String) (call : UnpinCall) (s : Pins) :
    Except PinError Unit × Pins :=
  if call.identity = true then unpinVersion taskId call s else (.error .runningPackageInvalid, s)

/-! ## What a call does -/

section
variable {version taskId : String} {s s' : Pins}

/-- The pin of a task to a version. -/
def pinFile (version taskId : String) : Option PinFile := some (.whole ⟨taskId, version⟩)

/-- The call gets as far as the writing, and the file is there afterwards. -/
def PinCall.creates (call : PinCall) (taskId : String) (s : Pins) : Prop :=
  call.identity = true ∧ isId taskId = true ∧ call.lock = true ∧ call.directories = true ∧
    call.installed = true ∧ s taskId = none ∧ call.writing ≠ .absent

/-- The call gets as far as the removal, and removes the file. -/
def UnpinCall.removes (call : UnpinCall) : Bool :=
  call.identity && call.lock && call.directories && call.remove

/-- A call that succeeds finds the pin, or makes it. -/
theorem pin_ok {call : PinCall} (h : pinRunningVersion version taskId call s = (.ok (), s')) :
    isId taskId = true ∧ s' = Function.update s taskId (pinFile version taskId) ∧
      (s taskId = none ∨ s taskId = pinFile version taskId) := by
  unfold pinRunningVersion at h
  split at h
  case isFalse => cases h
  unfold pinVersion at h
  split at h
  · cases h
  next hid =>
    rw [Decidable.not_not] at hid
    split at h
    · cases h
    · split at h
      · cases h
      · split at h
        · cases h
        · cases hfile : s taskId with
          | none =>
            rw [hfile] at h
            dsimp only [readPin] at h
            split at h
            · cases h
            · cases h
            · exact ⟨hid, (Prod.mk.inj h).2.symm, .inl rfl⟩
          | some file =>
            rw [hfile] at h
            cases file with
            | invalid => cases h
            | whole active =>
              dsimp only [readPin] at h
              split at h
              next hsame =>
                obtain ⟨rfl, rfl⟩ := hsame
                cases h
                exact ⟨hid, by rw [pinFile, ← hfile, Function.update_eq_self], .inr rfl⟩
              · cases h

/-- A call that fails leaves the pins as they are, or a file that it has created. -/
theorem pin_error {call : PinCall} {e : PinError}
    (h : pinRunningVersion version taskId call s = (.error e, s')) :
    ¬ call.creates taskId s ∧ s' = s ∨
      call.creates taskId s ∧ s taskId = none ∧ ∃ f, s' = Function.update s taskId (some f) := by
  unfold pinRunningVersion at h
  unfold PinCall.creates
  split at h
  case isFalse hidentity =>
    cases h
    exact .inl ⟨fun hcreates => hidentity hcreates.1, rfl⟩
  next hidentity =>
  unfold pinVersion at h
  split at h
  next hid =>
    cases h
    exact .inl ⟨fun hcreates => hid hcreates.2.1, rfl⟩
  next hid =>
  split at h
  next hlock =>
    cases h
    exact .inl ⟨fun hcreates => hlock hcreates.2.2.1, rfl⟩
  next hlock =>
  split at h
  next hdirectories =>
    cases h
    exact .inl ⟨fun hcreates => hdirectories hcreates.2.2.2.1, rfl⟩
  next hdirectories =>
  split at h
  next hinstalled =>
    cases h
    exact .inl ⟨fun hcreates => hinstalled hcreates.2.2.2.2.1, rfl⟩
  next hinstalled =>
  rw [Decidable.not_not] at hid hlock hdirectories hinstalled
  cases hfile : s taskId with
  | none =>
    rw [hfile] at h
    dsimp only [readPin] at h
    split at h
    next hwriting =>
      cases h
      exact .inl ⟨fun hcreates => hcreates.2.2.2.2.2.2 hwriting, rfl⟩
    next f hwriting =>
      cases h
      refine .inr ⟨⟨hidentity, hid, hlock, hdirectories, hinstalled, rfl, ?_⟩, rfl, f, rfl⟩
      rw [hwriting]
      nofun
    next hwriting =>
      refine .inr ⟨⟨hidentity, hid, hlock, hdirectories, hinstalled, rfl, ?_⟩, rfl, _,
        (Prod.mk.inj h).2.symm⟩
      rw [hwriting]
      nofun
  | some file =>
    have hsame : s' = s := by
      rw [hfile] at h
      cases file with
      | invalid => exact (Prod.mk.inj h).2.symm
      | whole active => exact (Prod.mk.inj h).2.symm
    exact .inl ⟨fun hcreates => (by cases hcreates.2.2.2.2.2.1), hsame⟩

/-- Only a binary outside of an installed package makes the loop pass over an error. -/
theorem pin_skipped {call : PinCall}
    (h : pinRunningVersion version taskId call s = (.error .runningPackageInvalid, s')) :
    s' = s := by
  rcases pin_error h with ⟨-, hs⟩ | ⟨⟨hidentity, hid, hlock, hdirectories, hinstalled, hnone, -⟩, -⟩
  · exact hs
  · rw [pinRunningVersion, if_pos hidentity, pinVersion, if_neg (not_not.2 hid),
      if_neg (not_not.2 hlock), if_neg (not_not.2 hdirectories), if_neg (not_not.2 hinstalled),
      hnone] at h
    dsimp only [readPin] at h
    split at h
    · cases h
    · cases h
    · split at h <;> cases h

/-- A pin of its own task is removed if the call gets so far. -/
theorem unpin_pinned {call : UnpinCall} (hid : isId taskId = true)
    (hs : s taskId = none ∨ s taskId = pinFile version taskId) :
    (unpinRunningVersion taskId call s).2 =
      if call.removes = true then Function.update s taskId none else s := by
  obtain ⟨identity, lock, directories, remove, sync⟩ := call
  unfold unpinRunningVersion unpinVersion UnpinCall.removes
  rcases hs with hs | hs
  · cases identity <;> cases lock <;> cases directories <;> cases remove <;>
      simp [hid, hs, readPin]
  · cases identity <;> cases lock <;> cases directories <;> cases remove <;>
      simp [hid, hs, readPin, pinFile]

end
end Orchestrator.Install
