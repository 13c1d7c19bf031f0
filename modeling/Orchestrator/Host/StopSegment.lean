import Orchestrator.Host.Unspawned

/-!
# Stopping a segment

`StopSegment` sets a flag and looks for the handle; the goroutine publishes the handle and
looks at the flag. Whatever the order, a worker that runs is stopped, and what the goroutine
decides after the flag was set is never an answer.
-/
namespace Orchestrator.Host.Worker
open Library

/-- The events without the session, which the collector may append at any time. -/
def quiet (spool : List EventKind) : List EventKind := spool.filter fun kind => kind ≠ .session

theorem mem_quiet {spool : List EventKind} {kind : EventKind} (h : kind ≠ .session) :
    kind ∈ quiet spool ↔ kind ∈ spool := by
  simp [quiet, h]

@[simp] theorem quiet_nil : quiet [] = [] := rfl

@[simp] theorem quiet_session {spool : List EventKind} :
    quiet (spool ++ [EventKind.session]) = quiet spool := by
  simp [quiet]

@[simp] theorem quiet_concat {spool : List EventKind} {kind : EventKind} (h : kind ≠ .session) :
    quiet (spool ++ [kind]) = quiet spool ++ [kind] := by
  simp [quiet, h]

theorem appends_mem {todo todo' : List Write} (h : todo <:+ todo') {kind : EventKind}
    (hk : kind ∈ appends todo) : kind ∈ appends todo' :=
  (h.filterMap _).subset hk

/-- How the spool of a segment ends whose worker was stopped, was lost, or never started. -/
def Ends (events : List EventKind) : Prop :=
  [EventKind.stopped, .exited] <:+ events ∨ [EventKind.unknown] <:+ events ∨
    events = [.failed, .exited]

instance (events : List EventKind) : Decidable (Ends events) :=
  inferInstanceAs (Decidable (_ ∨ _))

/-- The process may have been started, and the second test of the flag is still to come. -/
def Pc.untested : Pc → Bool
  | .birth | .write .spawned _ | .observe | .register | .secondStopTest => true
  | _ => false

/-- The last write of the goroutine before it gives up: what it records then is not retried. -/
def Pc.final : Pc → Bool
  | .reportCapability | .ensureUnknown => true
  | .write .failed (_ :: _) | .write .unknown (_ :: _) => true
  | _ => false

namespace Launch

/-- No operation fails that the goroutine answers by giving up. -/
def Records (s : Launch) (a : Action) : Prop := a = .go false → s.pc.final = false

instance (s : Launch) (a : Action) : Decidable (s.Records a) :=
  inferInstanceAs (Decidable (_ → _))

/-- Where the goroutine stands and what it still knows of a flag that was set before the worker
exited. -/
def Heeds (flagged : Bool) (s : Launch) : Prop :=
  (s.waited = true → s.tree = .exited ∨ s.tree = .gone) ∧
  match s.pc with
  | .invocation | .reportCapability | .check _ | .publishPrepared | .appendPrepared =>
    s.tree = .unborn ∧ s.registered = false ∧ quiet s.spool = [] ∧
      (flagged = true → s.stopRequested = true)
  | .firstStopTest | .start _ | .spawn =>
    s.tree = .unborn ∧ s.registered = false ∧ (flagged = true → s.stopRequested = true)
  | .birth | .observe | .register => flagged = true → s.stopRequested = true
  | .secondStopTest => s.registered = true ∧ (flagged = true → s.stopRequested = true)
  | .wait => s.registered = true ∧
      (flagged = true → s.stopRequested = true ∧ (s.stopInvoked = true ∨ 0 < s.stoppers))
  | .stopAfterWait => s.stopInvoked = true ∧ (flagged = true → s.stopRequested = true)
  | .confirm => s.waited = true ∧ (flagged = true → s.stopRequested = true)
  | .lastStopTest => s.tree = .gone ∧ (flagged = true → s.stopRequested = true)
  | .finish | .writeArtifact _ => flagged = false ∧ s.tree = .gone
  | .write block todo =>
    (block ≠ .terminal → todo <:+ block.writes) ∧
    match block with
    | .spawned => flagged = true → s.stopRequested = true
    | .terminal => flagged = false ∧ s.tree = .gone
    | .failed => s.tree = .unborn ∧ .prepared ∉ s.spool
    | .stopped | .lost | .unknown => s.tree = .alive → s.stopInvoked = true
  | .deregister status | .clearStop status =>
    (status = .finished → flagged = false ∧ s.tree = .gone) ∧
      (s.tree = .alive → s.stopInvoked = true) ∧ ¬ (status = .empty ∨ status = .failed)
  | .ensureUnknown | .done => s.tree = .alive → s.stopInvoked = true

/-- What others may change around the goroutine. -/
structure Around (s u : Launch) : Prop where
  pc : u.pc = s.pc
  spool : quiet u.spool = quiet s.spool
  registered : u.registered = s.registered
  tree : u.tree = s.tree ∨ s.tree = .alive ∧ u.tree = .exited ∨ s.tree = .exited ∧ u.tree = .gone
  waited : u.waited = s.waited ∨ u.waited = true ∧ (s.tree = .exited ∨ s.tree = .gone)
  requested : s.stopRequested = true → u.stopRequested = true
  invoked : s.stopInvoked = true → u.stopInvoked = true
  stoppers : s.registered = true → 0 < s.stoppers → u.stopInvoked = true ∨ 0 < u.stoppers

section
variable {flagged ok : Bool} {s : Launch}

theorem step_around {a : Action} (ha : a.own = false) : Around s (s.step a) := by
  have hself : Around s s := ⟨rfl, rfl, rfl, .inl rfl, .inl rfl, id, id, fun _ => .inr⟩
  cases a with
  | go ok | finish kind => cases ha
  | exit killed =>
    rw [step]
    split
    · next ht => exact { hself with tree := .inr (.inl ⟨ht, rfl⟩) }
    · exact hself
  | vanish =>
    rw [step]
    split
    · next ht => exact { hself with tree := .inr (.inr ⟨ht, rfl⟩) }
    · exact hself
  | reap =>
    rw [step]
    split
    · next ht => exact { hself with waited := .inr ⟨rfl, ht⟩ }
    · exact hself
  | session =>
    rw [step]
    split
    · exact { hself with spool := quiet_session }
    · exact hself
  | stopSegment =>
    exact { hself with
      requested := fun _ => rfl
      stoppers := fun _ _ => .inr (Nat.succ_pos _) }
  | lookUp =>
    rw [step]
    split
    · refine { hself with invoked := fun hi => ?_, stoppers := fun hr _ => ?_ }
      · exact Bool.or_eq_true_iff.mpr (.inl hi)
      · exact .inl (Bool.or_eq_true_iff.mpr (.inr hr))
    · exact hself

section
variable {u : Launch}

theorem Around.unborn (hu : Around s u) (h : s.tree = .unborn) : u.tree = .unborn := by
  obtain h | h | h := hu.tree <;> simp_all

theorem Around.gone (hu : Around s u) (h : s.tree = .gone) : u.tree = .gone := by
  obtain h | h | h := hu.tree <;> simp_all

theorem Around.reaped (hu : Around s u) (h : s.waited = true) : u.waited = true := by
  obtain h | h := hu.waited <;> simp_all

theorem Around.invokes (hu : Around s u) (h : s.tree = .alive → s.stopInvoked = true)
    (ht : u.tree = .alive) : u.stopInvoked = true := by
  refine hu.invoked (h ?_)
  obtain h | h | h := hu.tree <;> simp_all

theorem Around.flag (hu : Around s u) (h : flagged = true → s.stopRequested = true)
    (hf : flagged = true) : u.stopRequested = true := hu.requested (h hf)

theorem Around.ended (hu : Around s u)
    (h : s.waited = true → s.tree = .exited ∨ s.tree = .gone) (hw : u.waited = true) :
    u.tree = .exited ∨ u.tree = .gone := by
  have hs : s.tree = .exited ∨ s.tree = .gone := by
    obtain hwaited | hwaited := hu.waited
    · exact h (hwaited ▸ hw)
    · exact hwaited.2
  obtain h | h | h := hu.tree <;> simp_all

theorem Around.mem {kind : EventKind} (hu : Around s u) (hk : kind ≠ .session) :
    kind ∈ u.spool ↔ kind ∈ s.spool := by
  rw [← mem_quiet hk, hu.spool, mem_quiet hk]

theorem Heeds.around (h : s.Heeds flagged) (hu : Around s u) : u.Heeds flagged := by
  obtain ⟨hwaited, h⟩ := h
  refine ⟨hu.ended hwaited, ?_⟩
  rw [hu.pc]
  cases hpc : s.pc with
  | invocation | reportCapability | check todo | publishPrepared | appendPrepared =>
    rw [hpc] at h
    exact ⟨hu.unborn h.1, hu.registered.trans h.2.1, hu.spool.trans h.2.2.1, hu.flag h.2.2.2⟩
  | firstStopTest | start todo | spawn =>
    rw [hpc] at h
    exact ⟨hu.unborn h.1, hu.registered.trans h.2.1, hu.flag h.2.2⟩
  | birth | observe | register =>
    rw [hpc] at h
    exact hu.flag h
  | secondStopTest =>
    rw [hpc] at h
    exact ⟨hu.registered.trans h.1, hu.flag h.2⟩
  | wait =>
    rw [hpc] at h
    refine ⟨hu.registered.trans h.1, fun hf => ⟨hu.requested (h.2 hf).1, ?_⟩⟩
    obtain hi | hs := (h.2 hf).2
    · exact .inl (hu.invoked hi)
    · exact hu.stoppers h.1 hs
  | stopAfterWait =>
    rw [hpc] at h
    exact ⟨hu.invoked h.1, hu.flag h.2⟩
  | confirm =>
    rw [hpc] at h
    exact ⟨hu.reaped h.1, hu.flag h.2⟩
  | lastStopTest =>
    rw [hpc] at h
    exact ⟨hu.gone h.1, hu.flag h.2⟩
  | finish | writeArtifact kind =>
    rw [hpc] at h
    exact ⟨h.1, hu.gone h.2⟩
  | write block todo =>
    rw [hpc] at h
    refine ⟨h.1, ?_⟩
    cases block with
    | spawned => exact hu.flag h.2
    | terminal => exact ⟨h.2.1, hu.gone h.2.2⟩
    | failed => exact ⟨hu.unborn h.2.1, fun hmem => h.2.2 ((hu.mem (by decide)).1 hmem)⟩
    | stopped | lost | unknown => exact hu.invokes h.2
  | deregister status | clearStop status =>
    rw [hpc] at h
    exact ⟨fun hs => ⟨(h.1 hs).1, hu.gone (h.1 hs).2⟩, hu.invokes h.2.1, h.2.2⟩
  | ensureUnknown | done =>
    rw [hpc] at h
    exact hu.invokes h

end

/-- What is asked where `execute` has returned and the entries in the tables are undone. -/
theorem Heeds.back (hwaited : s.waited = true → s.tree = .exited ∨ s.tree = .gone)
    (halive : s.tree = .alive → s.stopInvoked = true) {status : Status}
    (hrejected : status = .empty ∨ status = .failed → s.tree = .unborn ∧ .prepared ∉ s.spool) :
    (s.back status).Heeds flagged := by
  cases status with
  | finished | interrupted | unknown => exact ⟨hwaited, halive⟩
  | empty => exact ⟨hwaited, fun _ => List.suffix_rfl, hrejected (.inl rfl)⟩
  | failed => exact ⟨hwaited, fun _ => List.suffix_rfl, hrejected (.inr rfl)⟩

theorem Heeds.returns (hwaited : s.waited = true → s.tree = .exited ∨ s.tree = .gone)
    (halive : s.tree = .alive → s.stopInvoked = true) {status : Status}
    (hstatus : status = .unknown ∨ status = .interrupted ∨
      status = .finished ∧ flagged = false ∧ s.tree = .gone) :
    (s.returns status).Heeds flagged := by
  unfold Launch.returns
  split
  · refine ⟨hwaited, ?_, halive, ?_⟩
    · intro h
      obtain h' | h' | h' := hstatus
      · cases h'.symm.trans h
      · cases h'.symm.trans h
      · exact h'.2
    · rintro (rfl | rfl) <;> simp at hstatus
  · apply Heeds.back hwaited halive
    rintro (rfl | rfl) <;> simp at hstatus

theorem Heeds.stopAndReturn (hwaited : s.waited = true → s.tree = .exited ∨ s.tree = .gone) :
    s.stopAndReturn.Heeds flagged :=
  .returns (s := { s with stopInvoked := true }) hwaited (fun _ => rfl) (.inl rfl)

theorem invoked_of_unborn (h : s.tree = .unborn) (ha : s.tree = .alive) :
    s.stopInvoked = true := by
  cases h.symm.trans ha

theorem invoked_of_gone (h : s.tree = .gone) (ha : s.tree = .alive) : s.stopInvoked = true := by
  cases h.symm.trans ha

theorem not_mem_prepared (h : quiet s.spool = []) : .prepared ∉ s.spool := by
  rw [← mem_quiet (by decide), h]
  exact List.not_mem_nil

/-- A block that gives the worker up begins with all its writes. -/
theorem Heeds.gives_up (hwaited : s.waited = true → s.tree = .exited ∨ s.tree = .gone)
    (halive : s.tree = .alive → s.stopInvoked = true) {block : Block}
    (hblock : block = .stopped ∨ block = .lost ∨ block = .unknown) :
    (s.begin block).Heeds flagged := by
  obtain rfl | rfl | rfl := hblock <;> exact ⟨hwaited, fun _ => List.suffix_rfl, halive⟩

/-! ### The places of the goroutine -/

theorem Heeds.go_check {todo : List Check} (h : s.Heeds flagged) (hpc : s.pc = .check todo) :
    (s.go ok).Heeds flagged := by
  obtain ⟨hwaited, h⟩ := h
  rw [hpc] at h
  rw [Launch.go, hpc]
  cases todo with
  | nil => exact ⟨hwaited, h⟩
  | cons check todo =>
    cases ok with
    | true => exact ⟨hwaited, h⟩
    | false =>
      change (s.back .empty).Heeds flagged
      exact .back hwaited (invoked_of_unborn h.1) fun _ => ⟨h.1, not_mem_prepared h.2.2.1⟩

theorem Heeds.go_publishPrepared (h : s.Heeds flagged) (hpc : s.pc = .publishPrepared) :
    (s.go ok).Heeds flagged := by
  obtain ⟨hwaited, h⟩ := h
  rw [hpc] at h
  rw [Launch.go, hpc]
  cases ok with
  | true => exact ⟨hwaited, h⟩
  | false =>
    change (s.back .failed).Heeds flagged
    exact .back hwaited (invoked_of_unborn h.1) fun _ => ⟨h.1, not_mem_prepared h.2.2.1⟩

theorem Heeds.go_appendPrepared (h : s.Heeds flagged) (hpc : s.pc = .appendPrepared) :
    (s.go ok).Heeds flagged := by
  obtain ⟨hwaited, h⟩ := h
  rw [hpc] at h
  rw [Launch.go, hpc]
  cases ok with
  | true => exact ⟨hwaited, h.1, h.2.1, h.2.2.2⟩
  | false =>
    change (s.back .unknown).Heeds flagged
    exact .back hwaited (invoked_of_unborn h.1) (by simp)

theorem Heeds.go_firstStopTest (h : s.Heeds flagged) (hpc : s.pc = .firstStopTest) :
    (s.go ok).Heeds flagged := by
  obtain ⟨hwaited, h⟩ := h
  rw [hpc] at h
  rw [Launch.go, hpc]
  dsimp only
  split
  · exact .gives_up hwaited (invoked_of_unborn h.1) (.inl rfl)
  · exact ⟨hwaited, h⟩

theorem Heeds.go_start {todo : List StartCheck} (h : s.Heeds flagged) (hpc : s.pc = .start todo) :
    (s.go ok).Heeds flagged := by
  obtain ⟨hwaited, h⟩ := h
  rw [hpc] at h
  rw [Launch.go, hpc]
  cases todo with
  | nil => exact ⟨hwaited, h⟩
  | cons check todo =>
    cases ok with
    | true => exact ⟨hwaited, h⟩
    | false => exact .gives_up hwaited (invoked_of_unborn h.1) (.inr (.inl rfl))

theorem Heeds.go_spawn (h : s.Heeds flagged) (hpc : s.pc = .spawn) : (s.go ok).Heeds flagged := by
  obtain ⟨hwaited, h⟩ := h
  rw [hpc] at h
  rw [Launch.go, hpc]
  cases ok with
  | true =>
    refine ⟨fun hw => ?_, h.2.2⟩
    have hexited := hwaited hw
    rw [h.1] at hexited
    simp at hexited
  | false => exact .gives_up hwaited (invoked_of_unborn h.1) (.inr (.inl rfl))

theorem Heeds.go_birth (h : s.Heeds flagged) (hpc : s.pc = .birth) : (s.go ok).Heeds flagged := by
  obtain ⟨hwaited, h⟩ := h
  rw [hpc] at h
  rw [Launch.go, hpc]
  cases ok with
  | true => exact ⟨hwaited, fun _ => List.suffix_rfl, h⟩
  | false =>
    exact .gives_up (s := { s with stopInvoked := true }) hwaited (fun _ => rfl) (.inr (.inl rfl))

theorem Heeds.succeeds {block : Block} (h : s.Heeds flagged) (hpc : s.pc = .write block []) :
    (s.succeeds block).Heeds flagged := by
  obtain ⟨hwaited, h⟩ := h
  rw [hpc] at h
  cases block with
  | spawned => exact ⟨hwaited, h.2⟩
  | stopped => exact .returns hwaited h.2 (.inr (.inl rfl))
  | terminal => exact .returns hwaited (invoked_of_gone h.2.2) (.inr (.inr ⟨rfl, h.2⟩))
  | lost => exact .returns hwaited h.2 (.inl rfl)
  | failed => exact ⟨hwaited, invoked_of_unborn h.2.1⟩
  | unknown => exact ⟨hwaited, h.2⟩

theorem Heeds.fails {block : Block} {write : Write} {todo : List Write} (h : s.Heeds flagged)
    (hpc : s.pc = .write block (write :: todo)) : (s.fails block todo).Heeds flagged := by
  obtain ⟨hwaited, h⟩ := h
  rw [hpc] at h
  cases block with
  | spawned => exact .stopAndReturn hwaited
  | stopped => exact .returns hwaited h.2 (.inl rfl)
  | terminal => exact .returns hwaited (invoked_of_gone h.2.2) (.inl rfl)
  | lost => exact ⟨hwaited, fun hb => (List.suffix_cons write todo).trans (h.1 hb), h.2⟩
  | failed => exact ⟨hwaited, invoked_of_unborn h.2.1⟩
  | unknown => exact ⟨hwaited, h.2⟩

/-- What is appended leaves the goroutine in its block. -/
theorem Heeds.appends {block : Block} {kind : EventKind} {todo : List Write}
    (h : s.Heeds flagged) (hpc : s.pc = .write block (.append kind :: todo)) :
    ((s.append kind).goto (.write block todo)).Heeds flagged := by
  obtain ⟨hwaited, h⟩ := h
  rw [hpc] at h
  refine ⟨hwaited, fun hb => (List.suffix_cons _ todo).trans (h.1 hb), ?_⟩
  cases block with
  | failed =>
    have hmem : kind ∈ Worker.appends Block.failed.writes :=
      appends_mem (h.1 (by decide)) (List.mem_cons_self ..)
    have hkind : kind = .failed ∨ kind = .exited := by simpa using hmem
    refine ⟨h.2.1, fun hmem => ?_⟩
    obtain hmem | hmem := List.mem_append.mp hmem
    · exact h.2.2 hmem
    · rw [List.mem_singleton] at hmem
      simp [← hmem] at hkind
  | spawned | stopped | terminal | lost | unknown => exact h.2

theorem Heeds.go_write {block : Block} {todo : List Write} (h : s.Heeds flagged)
    (hpc : s.pc = .write block todo) : (s.go ok).Heeds flagged := by
  rw [Launch.go, hpc]
  cases todo with
  | nil => exact h.succeeds hpc
  | cons write todo =>
    cases ok with
    | false => exact h.fails hpc
    | true =>
      cases write with
      | append kind => exact h.appends hpc
      | publish =>
        obtain ⟨hwaited, h⟩ := h
        rw [hpc] at h
        exact ⟨hwaited, fun hb => (List.suffix_cons _ todo).trans (h.1 hb), h.2⟩

theorem Heeds.go_observe (h : s.Heeds flagged) (hpc : s.pc = .observe) :
    (s.go ok).Heeds flagged := by
  obtain ⟨hwaited, h⟩ := h
  rw [hpc] at h
  rw [Launch.go, hpc]
  cases ok with
  | true => exact ⟨hwaited, h⟩
  | false =>
    change s.stopAndReturn.Heeds flagged
    exact .stopAndReturn hwaited

theorem Heeds.go_secondStopTest (h : s.Heeds flagged) (hpc : s.pc = .secondStopTest) :
    (s.go ok).Heeds flagged := by
  obtain ⟨hwaited, h⟩ := h
  rw [hpc] at h
  rw [Launch.go, hpc]
  dsimp only
  split
  · exact ⟨hwaited, h.1, fun hf => ⟨h.2 hf, .inl rfl⟩⟩
  · next hstop => exact ⟨hwaited, h.1, fun hf => (hstop (h.2 hf)).elim⟩

theorem Heeds.go_wait (h : s.Heeds flagged) (hpc : s.pc = .wait) : (s.go ok).Heeds flagged := by
  obtain ⟨hwaited, h⟩ := h
  rw [hpc] at h
  rw [Launch.go, hpc]
  cases ok with
  | true =>
    dsimp only
    rw [if_pos rfl]
    split
    · next hreaped => exact ⟨hwaited, hreaped, fun hf => (h.2 hf).1⟩
    · exact ⟨hwaited, by rw [hpc]; exact h⟩
  | false => exact ⟨hwaited, rfl, fun hf => (h.2 hf).1⟩

theorem Heeds.go_stopAfterWait (h : s.Heeds flagged) (hpc : s.pc = .stopAfterWait) :
    (s.go ok).Heeds flagged := by
  obtain ⟨hwaited, h⟩ := h
  rw [hpc] at h
  rw [Launch.go, hpc]
  cases ok with
  | true =>
    dsimp only
    rw [if_pos rfl]
    split
    · exact .gives_up hwaited (fun _ => h.1) (.inl rfl)
    · exact ⟨hwaited, by rw [hpc]; exact h⟩
  | false => exact .gives_up hwaited (fun _ => h.1) (.inr (.inl rfl))

theorem Heeds.go_confirm (h : s.Heeds flagged) (hpc : s.pc = .confirm) :
    (s.go ok).Heeds flagged := by
  obtain ⟨hwaited, h⟩ := h
  rw [hpc] at h
  rw [Launch.go, hpc]
  cases ok with
  | true =>
    dsimp only
    rw [if_pos rfl]
    split
    · next htree => exact ⟨hwaited, htree, h.2⟩
    · exact ⟨hwaited, by rw [hpc]; exact h⟩
  | false =>
    refine .gives_up hwaited (fun ha => ?_) (.inr (.inl rfl))
    have hexited := hwaited h.1
    rw [ha] at hexited
    simp at hexited

theorem Heeds.go_lastStopTest (h : s.Heeds flagged) (hpc : s.pc = .lastStopTest) :
    (s.go ok).Heeds flagged := by
  obtain ⟨hwaited, h⟩ := h
  rw [hpc] at h
  rw [Launch.go, hpc]
  dsimp only
  split
  · exact .gives_up hwaited (invoked_of_gone h.1) (.inl rfl)
  · next hstop =>
    refine ⟨hwaited, ?_, h.1⟩
    cases hf : flagged with
    | true => exact (hstop (.inl (h.2 hf))).elim
    | false => rfl

theorem Heeds.go_writeArtifact {kind : EventKind} (h : s.Heeds flagged)
    (hpc : s.pc = .writeArtifact kind) : (s.go ok).Heeds flagged := by
  obtain ⟨hwaited, h⟩ := h
  rw [hpc] at h
  rw [Launch.go, hpc]
  cases ok with
  | true => exact ⟨hwaited, fun hb => (hb rfl).elim, h⟩
  | false =>
    change (s.returns .unknown).Heeds flagged
    exact .returns hwaited (invoked_of_gone h.2) (.inl rfl)

theorem Heeds.go_ensureUnknown (h : s.Heeds flagged) (hpc : s.pc = .ensureUnknown) :
    (s.go ok).Heeds flagged := by
  obtain ⟨hwaited, h⟩ := h
  rw [hpc] at h
  rw [Launch.go, hpc]
  cases ok with
  | true =>
    dsimp only
    rw [if_pos rfl]
    split
    · exact ⟨hwaited, h⟩
    · exact .gives_up hwaited h (.inr (.inr rfl))
  | false => exact ⟨hwaited, h⟩

theorem Heeds.go (h : s.Heeds flagged) : (s.go ok).Heeds flagged := by
  cases hpc : s.pc with
  | check todo => exact h.go_check hpc
  | publishPrepared => exact h.go_publishPrepared hpc
  | appendPrepared => exact h.go_appendPrepared hpc
  | firstStopTest => exact h.go_firstStopTest hpc
  | start todo => exact h.go_start hpc
  | spawn => exact h.go_spawn hpc
  | birth => exact h.go_birth hpc
  | write block todo => exact h.go_write hpc
  | observe => exact h.go_observe hpc
  | secondStopTest => exact h.go_secondStopTest hpc
  | wait => exact h.go_wait hpc
  | stopAfterWait => exact h.go_stopAfterWait hpc
  | confirm => exact h.go_confirm hpc
  | lastStopTest => exact h.go_lastStopTest hpc
  | writeArtifact kind => exact h.go_writeArtifact hpc
  | ensureUnknown => exact h.go_ensureUnknown hpc
  | invocation | reportCapability =>
    obtain ⟨hwaited, h⟩ := h
    rw [hpc] at h
    have hprepared := not_mem_prepared h.2.2.1
    rw [Launch.go, hpc]
    cases ok <;> simp_all [Heeds, goto, begin]
  | register =>
    obtain ⟨hwaited, h⟩ := h
    rw [hpc] at h
    rw [Launch.go, hpc]
    exact ⟨hwaited, rfl, h⟩
  | deregister status =>
    obtain ⟨hwaited, h⟩ := h
    rw [hpc] at h
    rw [Launch.go, hpc]
    exact ⟨hwaited, h⟩
  | clearStop status =>
    obtain ⟨hwaited, h⟩ := h
    rw [hpc] at h
    rw [Launch.go, hpc]
    exact .back (s := { s with stopRequested := false }) hwaited h.2.1 fun hs => (h.2.2 hs).elim
  | finish | done =>
    rw [Launch.go, hpc]
    exact h

/-- The process ends, the flag is set, the handle is looked for, wherever the goroutine stands. -/
theorem Heeds.step (h : s.Heeds flagged) {a : Action} : (s.step a).Heeds flagged := by
  cases a with
  | go ok => exact h.go
  | finish kind =>
    rw [Launch.step]
    split
    · next hpc =>
      obtain ⟨hwaited, h⟩ := h
      rw [hpc.1] at h
      exact ⟨hwaited, h⟩
    · exact h
  | exit killed | vanish | reap | session | stopSegment | lookUp =>
    exact h.around (step_around rfl)

/-- The flag is set before the worker has exited. -/
theorem Heeds.flag (h : s.Heeds false) (ht : s.tree = .unborn ∨ s.tree = .alive) :
    (s.step .stopSegment).Heeds true := by
  have hgone : s.tree ≠ .gone := by
    obtain ht | ht := ht <;> rw [ht] <;> decide
  obtain ⟨hwaited, h⟩ := h
  refine ⟨hwaited, ?_⟩
  rw [Launch.step]
  cases hpc : s.pc with
  | finish | writeArtifact kind =>
    rw [hpc] at h
    exact (hgone h.2).elim
  | write block todo =>
    rw [hpc] at h
    refine ⟨h.1, ?_⟩
    cases block with
    | spawned => exact fun _ => rfl
    | terminal => exact (hgone h.2.2).elim
    | stopped | lost | failed | unknown => exact h.2
  | deregister status | clearStop status =>
    rw [hpc] at h
    exact ⟨fun hs => (hgone (h.1 hs).2).elim, h.2⟩
  | _ =>
    rw [hpc] at h
    simp_all

/-! ## What is appended after the flag was set -/

/-- Nothing that answers, and `failed` only where nothing was prepared. -/
def Spares (earlier : List EventKind) (s : Launch) : Prop :=
  ∃ later, s.spool = earlier ++ later ∧ .result ∉ later ∧ .question ∉ later ∧
    (.failed ∈ later → .prepared ∉ s.spool)

theorem Spares.append {earlier : List EventKind} (h : s.Spares earlier) {kind : EventKind}
    (hresult : kind ≠ .result) (hquestion : kind ≠ .question)
    (hfailed : kind = .failed → .prepared ∉ s.spool)
    (hprepared : kind = .prepared → .failed ∉ s.spool) : (s.append kind).Spares earlier := by
  obtain ⟨later, hspool, hr, hq, hf⟩ := h
  refine ⟨later ++ [kind], by simp [Launch.append, hspool], ?_, ?_, ?_⟩
  · simpa [hresult.symm] using hr
  · simpa [hquestion.symm] using hq
  · intro hmem hp
    obtain hp | hp := List.mem_append.mp hp
    · obtain hmem | hmem := List.mem_append.mp hmem
      · exact hf hmem hp
      · exact hfailed (List.mem_singleton.mp hmem).symm hp
    · have hkind := (List.mem_singleton.mp hp).symm
      obtain hmem | hmem := List.mem_append.mp hmem
      · exact hprepared hkind (hspool ▸ List.mem_append_right _ hmem)
      · rw [List.mem_singleton, hkind] at hmem
        cases hmem

theorem Spares.of_spool {earlier : List EventKind} (h : s.Spares earlier) {u : Launch}
    (hu : u.spool = s.spool) : u.Spares earlier := by
  obtain ⟨later, hspool, hlater⟩ := h
  refine ⟨later, hu.trans hspool, ?_⟩
  rw [hu]
  exact hlater

theorem Spares.step {earlier : List EventKind} (hs : s.Spares earlier) (h : s.Heeds true)
    {a : Action} : (s.step a).Spares earlier := by
  cases a with
  | go ok =>
    obtain hspool | ⟨kind, hspool, ⟨hpc, rfl⟩ | ⟨block, todo, hpc⟩⟩ := go_spool (s := s)
    · exact hs.of_spool hspool
    · refine (hs.append (by decide) (by decide) (by simp) fun _ hmem => ?_).of_spool hspool
      have h := h.2
      rw [hpc] at h
      rw [← mem_quiet (by decide), h.2.2.1] at hmem
      cases hmem
    · have h := h.2
      rw [hpc] at h
      have hterminal : block ≠ .terminal := by
        rintro rfl
        cases h.2.1
      have hkind : kind ∈ appends block.writes :=
        appends_mem (h.1 hterminal) (List.mem_cons_self ..)
      rw [appends_writes] at hkind
      refine (hs.append ?_ ?_ ?_ ?_).of_spool hspool
      · rintro rfl
        cases block <;> simp at hkind
      · rintro rfl
        cases block <;> simp at hkind
      · rintro rfl
        cases block with
        | failed => exact h.2.2
        | _ => simp at hkind
      · rintro rfl
        cases block <;> simp at hkind
  | session =>
    rw [Launch.step]
    split
    · exact hs.append (by decide) (by decide) (by simp) (by simp)
    · exact hs
  | finish kind | exit killed | vanish | reap | lookUp =>
    rw [Launch.step]
    split
    · exact hs.of_spool rfl
    · exact hs
  | stopSegment => exact hs.of_spool rfl

/-! ## How the spool ends -/

end
end Launch

/-- What the events other than the session are at each operation, until the end of a worker
that was not stopped is recorded. -/
def Pc.Closing (events : List EventKind) : Pc → Prop
  | .invocation | .reportCapability | .check _ | .publishPrepared | .appendPrepared => events = []
  | .firstStopTest | .start _ | .spawn | .birth | .observe | .register | .secondStopTest
  | .wait | .stopAfterWait | .confirm | .lastStopTest | .write .spawned _ => .unknown ∉ events
  | .write .stopped todo => .unknown ∉ events ∧
    [EventKind.stopped, .exited] <:+ events ++ appends todo
  | .write .lost todo => .unknown ∈ events → todo = [] ∧ [EventKind.unknown] <:+ events
  | .write .failed todo => events ++ appends todo = [EventKind.failed, .exited]
  | .write .unknown todo => [EventKind.unknown] <:+ events ++ appends todo
  | .deregister .unknown | .clearStop .unknown | .ensureUnknown =>
    .unknown ∈ events → [EventKind.unknown] <:+ events
  | .deregister .interrupted | .clearStop .interrupted => [EventKind.stopped, .exited] <:+ events
  | .done => Ends events
  | .finish | .writeArtifact _ | .write .terminal _ | .deregister _ | .clearStop _ => False

namespace Launch

/-- The end of a worker is being recorded that was not stopped, or the spool ends as it should. -/
def Closes (flagged : Bool) (s : Launch) : Prop :=
  flagged = false ∧ s.tree = .gone ∨ s.pc.Closing (quiet s.spool)

section
variable {flagged ok : Bool} {s : Launch}

theorem closing_back {events : List EventKind} {status : Status}
    (h : (Pc.clearStop status).Closing events) : (s.back status).pc.Closing events := by
  cases status with
  | unknown => exact h
  | interrupted => exact .inl h
  | empty | failed | finished => exact h.elim

theorem closing_returns {events : List EventKind} {status : Status}
    (h : (Pc.clearStop status).Closing events) : (s.returns status).pc.Closing events := by
  unfold Launch.returns
  split
  · cases status <;> exact h
  · exact closing_back h

/-- Nothing has been recorded as `unknown`, so the check whether it has been changes nothing. -/
theorem closing_unknown {events : List EventKind} (h : .unknown ∉ events) :
    (Pc.clearStop .unknown).Closing events := fun hmem => (h hmem).elim

theorem closing_succeeds {block : Block} (hs : (Pc.write block []).Closing (quiet s.spool)) :
    (s.succeeds block).pc.Closing (quiet s.spool) := by
  cases block with
  | spawned => exact hs
  | stopped =>
    have hend := hs.2
    rw [appends_nil, List.append_nil] at hend
    exact closing_returns hend
  | terminal => exact hs.elim
  | lost => exact closing_returns fun hmem => (hs hmem).2
  | failed => exact .inr (.inr ((List.append_nil _).symm.trans hs))
  | unknown => exact .inr (.inl ((List.append_nil (quiet s.spool)) ▸ hs))

theorem closing_publish {block : Block} {todo : List Write} {events : List EventKind}
    (hs : (Pc.write block (.publish :: todo)).Closing events) :
    (Pc.write block todo).Closing events := by
  cases block with
  | lost =>
    intro hmem
    cases (hs hmem).1
  | terminal => exact hs.elim
  | spawned | stopped | failed | unknown => exact hs

theorem not_mem_unknown {events : List EventKind} {block : Block} {kind : EventKind}
    (hkind : kind ∈ appends block.writes) (hblock : .unknown ∉ appends block.writes)
    (hs : .unknown ∉ events) : .unknown ∉ events ++ [kind] := by
  intro hmem
  obtain hmem | hmem := List.mem_append.mp hmem
  · exact hs hmem
  · rw [List.mem_singleton.mp hmem] at hblock
    exact hblock hkind

/-- What is appended is an event of the block, which has the writes that are left. -/
theorem closing_append {block : Block} {kind : EventKind} {todo : List Write}
    {events : List EventKind} (hwrites : block ≠ .terminal → .append kind :: todo <:+ block.writes)
    (hs : (Pc.write block (.append kind :: todo)).Closing events) :
    (Pc.write block todo).Closing (events ++ [kind]) := by
  have hkind (hb : block ≠ .terminal) : kind ∈ appends block.writes :=
    appends_mem (hwrites hb) (List.mem_cons_self ..)
  have hassoc : events ++ appends (.append kind :: todo) = events ++ [kind] ++ appends todo := by
    rw [appends_append, List.append_assoc, List.singleton_append]
  cases block with
  | spawned => exact not_mem_unknown (hkind (by decide)) (by decide) hs
  | stopped =>
    exact ⟨not_mem_unknown (hkind (by decide)) (by decide) hs.1, hassoc ▸ hs.2⟩
  | terminal => exact hs.elim
  | lost =>
    have hk : kind = .unknown := by simpa using hkind (by decide)
    have htodo : todo = [] := by
      have hsuffix := hwrites (by decide)
      simp only [Block.writes, List.suffix_cons_iff] at hsuffix
      simp_all
    rw [hk]
    exact fun _ => ⟨htodo, List.suffix_append ..⟩
  | failed => exact hassoc.symm.trans hs
  | unknown =>
    change [EventKind.unknown] <:+ events ++ [kind] ++ appends todo
    rw [← hassoc]
    exact hs

/-- The session is not an event of a block. -/
theorem quiet_append {block : Block} {kind : EventKind} {todo : List Write}
    (hwrites : .append kind :: todo <:+ block.writes) :
    quiet (s.spool ++ [kind]) = quiet s.spool ++ [kind] := by
  apply quiet_concat
  rintro rfl
  have hmem := appends_mem hwrites (List.mem_cons_self ..)
  rw [appends_writes] at hmem
  cases block <;> simp at hmem

theorem closing_fails {block : Block} {todo : List Write}
    (hs : (Pc.write block (write :: todo)).Closing (quiet s.spool))
    (hfinal : (Pc.write block (write :: todo)).final = false) :
    (s.fails block todo).pc.Closing (quiet s.spool) := by
  cases block with
  | spawned => exact closing_returns (closing_unknown hs)
  | stopped => exact closing_returns (closing_unknown hs.1)
  | terminal => exact hs.elim
  | lost =>
    intro hmem
    cases (hs hmem).1
  | failed | unknown => cases hfinal

theorem closing_write {block : Block} {todo : List Write} (h : s.Heeds flagged)
    (hpc : s.pc = .write block todo) (hs : (Pc.write block todo).Closing (quiet s.spool))
    (hc : s.Records (.go ok)) : (s.go ok).pc.Closing (quiet (s.go ok).spool) := by
  have h := h.2
  rw [hpc] at h
  rw [Launch.go, hpc]
  cases todo with
  | nil =>
    rw [succeeds_spool]
    exact closing_succeeds hs
  | cons write todo =>
    cases ok with
    | true =>
      cases write with
      | publish => exact closing_publish hs
      | append kind =>
        change (Pc.write block todo).Closing (quiet (s.spool ++ [kind]))
        have hterminal : block ≠ .terminal := by
          rintro rfl
          exact hs
        rw [quiet_append (h.1 hterminal)]
        exact closing_append h.1 hs
    | false =>
      simp only [Bool.false_eq_true, if_false, fails_spool]
      exact closing_fails hs (hpc ▸ hc rfl)

theorem closing_stopped {events : List EventKind} (h : .unknown ∉ events) :
    (s.begin .stopped).pc.Closing events := ⟨h, List.suffix_append ..⟩

theorem closing_lost {events : List EventKind} (h : .unknown ∉ events) :
    (s.begin .lost).pc.Closing events := fun hmem => (h hmem).elim

theorem closing_failed {events : List EventKind} (h : events = []) :
    (s.begin .failed).pc.Closing events := by
  rw [h]
  rfl

/-! ### Where nothing has been written yet, or the worker runs -/

theorem closing_check {todo : List Check} (hpc : s.pc = .check todo)
    (hs : (Pc.check todo).Closing (quiet s.spool)) :
    (s.go ok).pc.Closing (quiet (s.go ok).spool) := by
  rw [Launch.go, hpc]
  cases todo with
  | nil => exact hs
  | cons check todo =>
    cases ok with
    | true => exact hs
    | false => exact closing_failed hs

theorem closing_appendPrepared (hpc : s.pc = .appendPrepared) (hs : quiet s.spool = []) :
    (s.go ok).pc.Closing (quiet (s.go ok).spool) := by
  rw [Launch.go, hpc]
  cases ok with
  | true =>
    change .unknown ∉ quiet (s.spool ++ [EventKind.prepared])
    rw [quiet_concat (by decide), hs]
    decide
  | false =>
    change .unknown ∈ quiet s.spool → _
    rw [hs]
    exact fun hmem => absurd hmem List.not_mem_nil

theorem closing_firstStopTest (hpc : s.pc = .firstStopTest) (hs : .unknown ∉ quiet s.spool) :
    (s.go ok).pc.Closing (quiet (s.go ok).spool) := by
  rw [Launch.go, hpc]
  dsimp only
  split
  · exact closing_stopped hs
  · exact hs

theorem closing_start {todo : List StartCheck} (hpc : s.pc = .start todo)
    (hs : .unknown ∉ quiet s.spool) : (s.go ok).pc.Closing (quiet (s.go ok).spool) := by
  rw [Launch.go, hpc]
  cases todo with
  | nil => exact hs
  | cons check todo =>
    cases ok with
    | true => exact hs
    | false => exact closing_lost hs

theorem closing_observe (hpc : s.pc = .observe) (hs : .unknown ∉ quiet s.spool) :
    (s.go ok).pc.Closing (quiet (s.go ok).spool) := by
  rw [Launch.go, hpc]
  cases ok with
  | true => exact hs
  | false =>
    change s.stopAndReturn.pc.Closing (quiet s.stopAndReturn.spool)
    rw [stopAndReturn_spool]
    exact closing_returns (closing_unknown hs)

theorem closing_secondStopTest (hpc : s.pc = .secondStopTest) (hs : .unknown ∉ quiet s.spool) :
    (s.go ok).pc.Closing (quiet (s.go ok).spool) := by
  rw [Launch.go, hpc]
  dsimp only
  split <;> exact hs

theorem closing_wait (hpc : s.pc = .wait) (hs : .unknown ∉ quiet s.spool) :
    (s.go ok).pc.Closing (quiet (s.go ok).spool) := by
  rw [Launch.go, hpc]
  cases ok with
  | true =>
    dsimp only
    rw [if_pos rfl]
    split
    · exact hs
    · rw [hpc]
      exact hs
  | false => exact hs

theorem closing_stopAfterWait (hpc : s.pc = .stopAfterWait) (hs : .unknown ∉ quiet s.spool) :
    (s.go ok).pc.Closing (quiet (s.go ok).spool) := by
  rw [Launch.go, hpc]
  cases ok with
  | true =>
    dsimp only
    rw [if_pos rfl]
    split
    · exact closing_stopped hs
    · rw [hpc]
      exact hs
  | false => exact closing_lost hs

theorem closing_confirm (hpc : s.pc = .confirm) (hs : .unknown ∉ quiet s.spool) :
    (s.go ok).pc.Closing (quiet (s.go ok).spool) := by
  rw [Launch.go, hpc]
  cases ok with
  | true =>
    dsimp only
    rw [if_pos rfl]
    split
    · exact hs
    · rw [hpc]
      exact hs
  | false => exact closing_lost hs

theorem closing_ensureUnknown (hpc : s.pc = .ensureUnknown)
    (hs : Pc.ensureUnknown.Closing (quiet s.spool)) (hc : s.Records (.go ok)) :
    (s.go ok).pc.Closing (quiet (s.go ok).spool) := by
  rw [Launch.go, hpc]
  cases ok with
  | true =>
    dsimp only
    rw [if_pos rfl]
    split
    · next hmem => exact .inr (.inl (hs ((mem_quiet (by decide)).mpr hmem)))
    · exact List.suffix_append ..
  | false =>
    have hfinal := hc rfl
    rw [hpc] at hfinal
    cases hfinal

theorem closing_go (h : s.Heeds flagged) (hs : s.pc.Closing (quiet s.spool))
    (hpc : s.pc ≠ .lastStopTest) (hc : s.Records (.go ok)) :
    (s.go ok).pc.Closing (quiet (s.go ok).spool) := by
  have hclosing {pc : Pc} (hpc : s.pc = pc) : pc.Closing (quiet s.spool) := hpc ▸ hs
  cases hat : s.pc with
  | write block todo => exact closing_write h hat (hclosing hat) hc
  | check todo => exact closing_check hat (hclosing hat)
  | appendPrepared => exact closing_appendPrepared hat (hclosing hat)
  | firstStopTest => exact closing_firstStopTest hat (hclosing hat)
  | start todo => exact closing_start hat (hclosing hat)
  | observe => exact closing_observe hat (hclosing hat)
  | secondStopTest => exact closing_secondStopTest hat (hclosing hat)
  | wait => exact closing_wait hat (hclosing hat)
  | stopAfterWait => exact closing_stopAfterWait hat (hclosing hat)
  | confirm => exact closing_confirm hat (hclosing hat)
  | ensureUnknown => exact closing_ensureUnknown hat (hclosing hat) hc
  | lastStopTest => exact (hpc hat).elim
  | invocation | publishPrepared =>
    rw [hat] at hs
    rw [Launch.go, hat]
    cases ok with
    | true => exact hs
    | false => exact closing_failed hs
  | reportCapability =>
    rw [hat] at hs
    rw [Launch.go, hat]
    cases ok with
    | true => exact hs
    | false =>
      have hfinal := hc rfl
      rw [hat] at hfinal
      cases hfinal
  | spawn | birth =>
    rw [hat] at hs
    rw [Launch.go, hat]
    cases ok with
    | true => exact hs
    | false => exact closing_lost hs
  | register =>
    rw [hat] at hs
    rw [Launch.go, hat]
    exact hs
  | finish | writeArtifact kind =>
    rw [hat] at hs
    exact hs.elim
  | deregister status =>
    rw [hat] at hs
    rw [Launch.go, hat]
    cases status <;> exact hs
  | clearStop status =>
    rw [hat] at hs
    rw [Launch.go, hat]
    change (({ s with stopRequested := false } : Launch).back status).pc.Closing _
    rw [back_spool]
    exact closing_back hs
  | done =>
    rw [Launch.go, hat]
    exact hs

/-- The last test of the flag is where a worker turns out not to have been stopped. -/
theorem closes_lastStopTest (h : s.Heeds flagged) (hs : s.pc.Closing (quiet s.spool))
    (hpc : s.pc = .lastStopTest) : (s.go ok).Closes flagged := by
  have h := h.2
  rw [hpc] at hs h
  rw [Launch.go, hpc]
  dsimp only
  split
  · exact .inr (closing_stopped hs)
  · next hstop =>
    refine .inl ⟨?_, h.1⟩
    cases hf : flagged with
    | true => exact (hstop (.inl (h.2 hf))).elim
    | false => rfl

theorem Closes.go (hs : s.Closes flagged) (h : s.Heeds flagged) (hc : s.Records (.go ok)) :
    (s.go ok).Closes flagged := by
  obtain ⟨hf, htree⟩ | hs := hs
  · refine .inl ⟨hf, (go_tree fun hpc => ?_).trans htree⟩
    have h := h.2
    rw [hpc] at h
    cases h.1.symm.trans htree
  · by_cases hpc : s.pc = .lastStopTest
    · exact closes_lastStopTest h hs hpc
    · exact .inr (closing_go h hs hpc hc)

theorem Closes.step (hs : s.Closes flagged) (h : s.Heeds flagged) {a : Action}
    (hc : s.Records a) : (s.step a).Closes flagged := by
  have haround {u : Launch} (hu : Around s u) : u.Closes flagged := by
    obtain ⟨hf, htree⟩ | hs := hs
    · refine .inl ⟨hf, ?_⟩
      obtain ht | ht | ht := hu.tree <;> simp_all
    · refine .inr ?_
      rw [hu.pc, hu.spool]
      exact hs
  cases a with
  | go ok => exact hs.go h hc
  | finish kind =>
    rw [Launch.step]
    split
    · next hpc =>
      have h := h.2
      rw [hpc.1] at h
      exact .inl ⟨h.1, h.2⟩
    · exact hs
  | exit killed | vanish | reap | session | stopSegment | lookUp =>
    exact haround (step_around rfl)

/-- A worker that runs has been stopped, is about to be, or will be at the second test. -/
theorem Heeds.stops (h : s.Heeds true) (ht : s.tree = .alive) :
    s.stopInvoked = true ∨ 0 < s.stoppers ∨ s.pc.untested = true := by
  obtain ⟨hwaited, h⟩ := h
  cases hpc : s.pc with
  | wait =>
    rw [hpc] at h
    obtain hi | hs := (h.2 rfl).2
    · exact .inl hi
    · exact .inr (.inl hs)
  | confirm =>
    rw [hpc] at h
    have hexited := hwaited h.1
    rw [ht] at hexited
    simp at hexited
  | write block todo =>
    rw [hpc] at h
    cases block <;> simp_all [Pc.untested]
  | _ =>
    rw [hpc] at h
    simp_all [Pc.untested]

end

/-! ## Over runs -/

theorem heeds_run (actions : List Action) : (({} : Launch).run actions).Heeds false := by
  have hfresh : ({} : Launch).Heeds false := ⟨by simp, rfl, rfl, rfl, by simp⟩
  exact run_invariant (I := Heeds false) hfresh fun _ _ h => h.step

theorem closes_run {actions : List Action} (hc : AllSteps step Records {} actions) :
    (({} : Launch).run actions).Closes false := by
  have hfresh : ({} : Launch).Heeds false ∧ ({} : Launch).Closes false :=
    ⟨⟨by simp, rfl, rfl, rfl, by simp⟩, .inr rfl⟩
  refine (run_invariant_when (I := fun s : Launch => s.Heeds false ∧ s.Closes false) hfresh ?_ hc).2
  rintro s a ⟨h, hs⟩ hc
  exact ⟨h.step, hs.step h hc⟩

/-- A stop is kept without exception: `s` is the state in which the flag is set, `s'` a later
one. -/
def Kept (s s' : Launch) : Prop :=
  (s.tree = .unborn ∨ s.tree = .alive) → s'.pc = .done →
    (s'.tree = .unborn ∨ s'.stopInvoked = true) ∧
    ([.stopped, .exited] <:+ s'.spool ∨ [.unknown] <:+ s'.spool) ∧
    .failed ∉ s'.spool.drop s.spool.length

def StopKept (before after : List Action) : Prop :=
  Kept (({} : Launch).run before) (({} : Launch).run (before ++ .stopSegment :: after))

instance (before after : List Action) : Decidable (StopKept before after) :=
  inferInstanceAs (Decidable (_ → _ → _))

/-- Whatever the order of the flag, the handle and the tests: from the time on at which a flag is
set before the worker has exited, nothing is appended that answers, `failed` only if nothing was
prepared; a worker that runs has been stopped, or is going to be by the call that set the flag or
at the second test, and has been stopped when the goroutine has ended. Unless a write failed that
the goroutine does not make up for, the spool ends as that of a stopped or a lost worker, or as
that of a launch that was rejected. -/
theorem stop_never_lost (before after : List Action)
    (hflag : (({} : Launch).run before).tree = .unborn ∨
      (({} : Launch).run before).tree = .alive) :
    let s := ({} : Launch).run before
    let s' := ({} : Launch).run (before ++ .stopSegment :: after)
    s'.Spares s.spool ∧
    (s'.tree = .alive → s'.stopInvoked = true ∨ 0 < s'.stoppers ∨ s'.pc.untested = true) ∧
    (s'.pc = .done → s'.tree = .alive → s'.stopInvoked = true) ∧
    (AllSteps step Records {} (before ++ .stopSegment :: after) → s'.pc = .done →
      Ends (quiet s'.spool)) := by
  intro s s'
  have hflagged : (s.step .stopSegment).Heeds true := (heeds_run before).flag hflag
  have hrun : s' = (s.step .stopSegment).run after := by
    change Library.run step {} _ = _
    rw [run_append]
    rfl
  have hspares : (s.step .stopSegment).Spares s.spool :=
    ⟨[], (List.append_nil _).symm, by simp, by simp, by simp⟩
  have hheeds : s'.Heeds true ∧ s'.Spares s.spool := by
    rw [hrun]
    refine run_invariant (I := fun u : Launch => u.Heeds true ∧ u.Spares s.spool)
      ⟨hflagged, hspares⟩ ?_
    rintro u a ⟨h, hs⟩
    exact ⟨h.step, hs.step h⟩
  refine ⟨hheeds.2, hheeds.1.stops, ?_, ?_⟩
  · intro hdone
    have h := hheeds.1.2
    rw [hdone] at h
    exact h
  · intro hc hdone
    have hclosing : (s.step .stopSegment).Closes true := by
      obtain ⟨-, htree⟩ | hs := closes_run hc.of_append
      · have hgone : s.tree = .gone := htree
        obtain h | h := hflag
        · cases h.symm.trans hgone
        · cases h.symm.trans hgone
      · exact .inr hs
    have hcloses : s'.Heeds true ∧ s'.Closes true := by
      rw [hrun]
      refine run_invariant_when (I := fun u : Launch => u.Heeds true ∧ u.Closes true)
        ⟨hflagged, hclosing⟩ ?_ hc.from_append.2
      rintro u a ⟨h, hs⟩ hc
      exact ⟨h.step, hs.step h hc⟩
    obtain ⟨hf, -⟩ | hends := hcloses.2
    · cases hf
    · rw [hdone] at hends
      exact hends

/-- The flag is set between the start and the registration; the worker is killed. -/
theorem stop_before_registration :
    Ends (quiet (({} : Launch).run (List.replicate 24 (Action.go true) ++ Action.stopSegment ::
      (List.replicate 6 (Action.go true) ++ [Action.exit true, .vanish, .reap] ++
        List.replicate 12 (Action.go true)))).spool) :=
  (stop_never_lost _ _ (.inr (by decide))).2.2.2 (by decide) (by decide)

/-- A worker that exits before the handle is looked for is not stopped; a launch whose invocation
cannot be had is recorded as failed; the writes may fail; a session may come last. -/
theorem stop_exceptions :
    ¬ StopKept (List.replicate 31 (.go true))
      ([Action.exit false, .vanish, .reap] ++ List.replicate 10 (Action.go true)) ∧
    ¬ StopKept [] (.go false :: List.replicate 5 (.go true)) ∧
    ¬ StopKept (List.replicate 13 (.go true)) [.go true, .go false, .go false] ∧
    ¬ StopKept (List.replicate 31 (.go true))
      ([Action.go false, .go false, .go true, .go true, .session] ++
        List.replicate 10 (Action.go true)) := by
  decide

end Launch
end Orchestrator.Host.Worker
