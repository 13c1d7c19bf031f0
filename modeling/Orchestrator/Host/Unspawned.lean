import Orchestrator.Host.Launch

/-!
# Launches that start no process

While no process has been started, the spool of a segment is a function of where its
goroutine stands, until the first of the operations fails that the goroutine does not
answer with a terminal event. From then on it never appends `exited`.
-/
namespace Orchestrator.Host.Worker
open Library

/-- The events that are still to be appended. -/
def appends (todo : List Write) : List EventKind :=
  todo.filterMap fun
    | .publish => none
    | .append kind => some kind

@[simp] theorem appends_nil : appends [] = [] := rfl

@[simp] theorem appends_publish {todo : List Write} : appends (.publish :: todo) = appends todo :=
  rfl

@[simp] theorem appends_append {kind : EventKind} {todo : List Write} :
    appends (.append kind :: todo) = kind :: appends todo := rfl

/-- The operations whose failure the goroutine does not answer with a terminal event: the report
capability, the parts of `process.Start`, the append of `prepared`, and every write after it. -/
def Pc.unanswered : Pc → Bool
  | .reportCapability | .appendPrepared | .start (_ :: _) | .spawn | .write _ (_ :: _) => true
  | _ => false

@[simp] theorem appends_writes {block : Block} : appends block.writes = match block with
    | .spawned => [.spawned, .running]
    | .stopped => [.stopped, .exited]
    | .terminal => [.exited]
    | .lost | .unknown => [.unknown]
    | .failed => [.failed, .exited] := by
  cases block <;> rfl

namespace Launch

/-- No process has been started, and every rejection so far is being settled. -/
def Sound (s : Launch) : Prop :=
  s.registered = false ∧ s.observing = false ∧
  match s.pc with
  | .invocation | .reportCapability | .check _ | .publishPrepared | .appendPrepared => s.spool = []
  | .firstStopTest | .start _ | .spawn => s.spool = [.prepared]
  | .write .stopped todo =>
    todo <:+ Block.writes .stopped ∧
      s.spool ++ appends todo = [EventKind.prepared, .stopped, .exited]
  | .write .failed todo =>
    todo <:+ Block.writes .failed ∧ s.spool ++ appends todo = [EventKind.failed, .exited]
  | .done => s.spool = [.prepared, .stopped, .exited] ∨ s.spool = [.failed, .exited]
  | _ => False

/-- No process has been started, and no `exited` will be appended. -/
def Stranded (s : Launch) : Prop :=
  s.tree = .unborn ∧ s.registered = false ∧ s.observing = false ∧ .exited ∉ s.spool ∧
  match s.pc with
  | .write .lost todo | .write .unknown todo => .exited ∉ appends todo
  | .ensureUnknown | .done => True
  | _ => False

/-- Only operations that are answered fail. -/
def Settles (s : Launch) (a : Action) : Prop := a = .go false → s.pc.unanswered = false

instance (s : Launch) (a : Action) : Decidable (s.Settles a) :=
  inferInstanceAs (Decidable (_ → _))

/-- What the coordinator frees the slot and the reservation for. -/
def Settled (spool : List EventKind) : Prop :=
  ([.failed, .exited] <:+ spool ∨ [.stopped, .exited] <:+ spool) ∧ .unknown ∉ spool

instance (spool : List EventKind) : Decidable (Settled spool) :=
  inferInstanceAs (Decidable (_ ∧ _))

section
variable {s : Launch}

theorem Sound.spool_settled (h : s.Sound) (hdone : s.pc = .done) : Settled s.spool := by
  obtain ⟨-, -, h⟩ := h
  rw [hdone] at h
  obtain h | h := h <;> rw [h] <;> decide

theorem Stranded.not_settled (h : s.Stranded) : ¬ Settled s.spool := by
  rintro ⟨h' | h', -⟩
  all_goals exact h.2.2.2.1 (h'.subset (by decide))

/-- The last write of a block that settles the segment appends `exited`. -/
theorem exited_left {block : Block} (hb : block = .stopped ∨ block = .failed) {write : Write}
    {todo : List Write} (h : (write :: todo) <:+ block.writes) :
    .exited ∈ appends (write :: todo) := by
  obtain rfl | rfl := hb
  all_goals
    simp only [Block.writes, List.suffix_cons_iff, List.suffix_nil] at h
    obtain h | h | h | h | h := h
    any_goals (rw [h]; decide)
    cases h

/-- What is written has not been left to write. -/
theorem exited_unwritten {spool left all : List EventKind} (h : spool ++ left = all)
    (hleft : .exited ∈ left) (hall : all.count .exited = 1) : .exited ∉ spool := by
  intro hmem
  have hcount := congrArg (List.count .exited) h
  rw [List.count_append, hall] at hcount
  have hl := List.count_pos_iff.mpr hleft
  have hr := List.count_pos_iff.mpr hmem
  omega

/-- One operation of the goroutine, by where it stands. -/
theorem Sound.go (h : s.Sound) {ok : Bool} (hc : s.Settles (.go ok)) :
    (s.go ok).tree ≠ .unborn ∨ (s.go ok).Sound := by
  obtain ⟨hreg, hobs, h⟩ := h
  unfold Settles at hc
  unfold Launch.go
  cases hpc : s.pc with
  | check todo | start todo =>
    rw [hpc] at h hc
    cases todo <;> cases ok <;> simp_all [Sound, goto, begin, back, Pc.unanswered]
  | write block todo =>
    rw [hpc] at h hc
    cases todo with
    | nil => cases block <;> simp_all [Sound, goto, succeeds, returns, back]
    | cons write todo =>
      have htail {l : List Write} (hl : (write :: todo) <:+ l) : todo <:+ l :=
        (List.suffix_cons write todo).trans hl
      -- the write moves from what is left to what has been written
      cases write <;> cases ok <;> cases block <;> simp_all [Sound, goto, append, Pc.unanswered]
  | _ =>
    rw [hpc] at h hc
    cases ok <;> simp_all [Sound, goto, begin, back, append, Pc.unanswered] <;> split <;> simp_all

theorem born_go (h : s.tree ≠ .unborn) {ok : Bool} : (s.go ok).tree ≠ .unborn := by
  by_cases hpc : s.pc = .spawn
  · rw [Launch.go, hpc]
    cases ok with
    | true => exact Tree.noConfusion
    | false => exact h
  · rw [go_tree hpc]
    exact h

theorem born_step (h : s.tree ≠ .unborn) {a : Action} : (s.step a).tree ≠ .unborn := by
  cases a with
  | go ok => exact born_go h
  | finish kind | exit killed | vanish | reap | session | stopSegment | lookUp =>
    simp only [step]
    try split
    all_goals simp_all

theorem Sound.step (h : s.Sound) {a : Action} (hc : s.Settles a) :
    (s.step a).tree ≠ .unborn ∨ (s.step a).Sound := by
  cases a with
  | go ok => exact h.go hc
  | finish kind =>
    refine .inr ?_
    rw [Launch.step, if_neg]
    · exact h
    · rintro ⟨hpc, -⟩
      have h := h.2.2
      rw [hpc] at h
      exact h
  | session =>
    refine .inr ?_
    rw [Launch.step, if_neg]
    · exact h
    · rintro ⟨hobs, -⟩
      rw [h.2.1] at hobs
      cases hobs
  | exit killed | vanish | reap | lookUp =>
    refine .inr ?_
    rw [Launch.step]
    split
    · exact h
    · exact h
  | stopSegment => exact .inr h

/-- The first operation that fails unanswered. -/
theorem Sound.strand (h : s.Sound) (hu : s.tree = .unborn) {a : Action} (hc : ¬ s.Settles a) :
    (s.step a).Stranded := by
  obtain ⟨hreg, hobs, h⟩ := h
  obtain ⟨rfl, hpc⟩ : a = .go false ∧ s.pc.unanswered = true := by simpa [Settles] using hc
  simp only [Launch.step, Launch.go]
  cases hat : s.pc with
  | start todo =>
    rw [hat] at h hpc
    cases todo with
    | nil => cases hpc
    | cons check todo => simp_all [Stranded, goto, begin]
  | write block todo =>
    rw [hat] at h hpc
    cases todo with
    | nil => cases hpc
    | cons write todo =>
      cases block with
      | stopped =>
        have hspool := exited_unwritten h.2 (exited_left (.inl rfl) h.1) (by decide)
        simp_all [Stranded, goto, fails, returns, back]
      | failed =>
        have hspool := exited_unwritten h.2 (exited_left (.inr rfl) h.1) (by decide)
        simp_all [Stranded, goto, fails]
      | spawned | terminal | lost | unknown => exact h.elim
  | reportCapability | appendPrepared | spawn =>
    rw [hat] at h
    simp_all [Stranded, goto, begin, back]
  | _ =>
    rw [hat] at hpc
    cases hpc

/-- No later operation appends `exited`. -/
theorem Stranded.go (h : s.Stranded) {ok : Bool} : (s.go ok).Stranded := by
  obtain ⟨hu, hreg, hobs, hspool, h⟩ := h
  unfold Launch.go
  cases hpc : s.pc with
  | write block todo =>
    rw [hpc] at h
    cases todo with
    | nil => cases block <;> simp_all [Stranded, goto, succeeds, returns, back]
    | cons write todo =>
      cases write <;> cases ok <;> cases block <;> simp_all [Stranded, goto, append, fails]
  | ensureUnknown =>
    cases ok with
    | true =>
      simp only [if_true]
      split <;> simp_all [Stranded, goto, begin]
    | false => simp_all [Stranded, goto]
  | done => simp_all [Stranded]
  | _ =>
    rw [hpc] at h
    cases h

theorem Stranded.step (h : s.Stranded) {a : Action} : (s.step a).Stranded := by
  cases a with
  | go ok => exact h.go
  | finish kind =>
    rw [Launch.step, if_neg]
    · exact h
    · rintro ⟨hpc, -⟩
      have h := h.2.2.2.2
      rw [hpc] at h
      exact h
  | session =>
    rw [Launch.step, if_neg]
    · exact h
    · rintro ⟨hobs, -⟩
      rw [h.2.2.1] at hobs
      cases hobs
  | exit killed | vanish | reap =>
    rw [Launch.step, if_neg]
    · exact h
    · rw [h.1]
      simp
  | lookUp =>
    rw [Launch.step]
    split
    · obtain ⟨hu, hreg, hobs, hspool, h⟩ := h
      exact ⟨hu, hreg, hobs, hspool, h⟩
    · exact h
  | stopSegment => exact h

end

/-! ## Over runs -/

theorem sound_run {s : Launch} {actions : List Action} (h : s.Sound)
    (hc : AllSteps step Settles s actions) :
    (s.run actions).tree ≠ .unborn ∨ (s.run actions).Sound := by
  refine run_invariant_when (I := fun u => u.tree ≠ .unborn ∨ u.Sound) (.inr h) ?_ hc
  rintro u a (hu | hu) hc
  · exact .inl (born_step hu)
  · exact hu.step hc

theorem stranded_run {s : Launch} {actions : List Action} (h : s.Sound)
    (hc : ¬ AllSteps step Settles s actions) :
    (s.run actions).tree ≠ .unborn ∨ (s.run actions).Stranded := by
  induction actions generalizing s with
  | nil => exact (hc trivial).elim
  | cons a actions ih =>
    have hborn : (s.step a).tree ≠ .unborn → ((s.step a).run actions).tree ≠ .unborn := fun hb =>
      run_invariant (I := fun u : Launch => u.tree ≠ .unborn) hb fun u a hu => born_step hu
    by_cases hs : s.Settles a
    · obtain hb | h := h.step hs
      · exact .inl (hborn hb)
      · exact ih h fun hrest => hc ⟨hs, hrest⟩
    · by_cases hu : s.tree = .unborn
      · have hrun : ((s.step a).run actions).Stranded :=
          run_invariant (I := Stranded) (h.strand hu hs) fun u a h => h.step
        exact .inr hrun
      · exact .inl (hborn (born_step hu))

/-- A goroutine that has ended without starting a process has settled the segment if and only
if every operation that failed was one it answers. -/
theorem unspawned_settled_iff (actions : List Action)
    (hdone : (({} : Launch).run actions).pc = .done)
    (hunborn : (({} : Launch).run actions).tree = .unborn) :
    Settled (({} : Launch).run actions).spool ↔ AllSteps step Settles {} actions := by
  have hfresh : ({} : Launch).Sound := ⟨rfl, rfl, rfl⟩
  constructor
  · intro h
    refine Decidable.byContradiction fun hc => ?_
    obtain hb | hs := stranded_run hfresh hc
    · exact hb hunborn
    · exact hs.not_settled h
  · intro hc
    obtain hb | hs := sound_run hfresh hc
    · exact (hb hunborn).elim
    · exact hs.spool_settled hdone

/-- The invocation cannot be had, and the launch is settled. -/
theorem rejected_invocation_settled :
    Settled (({} : Launch).run (Action.go false :: List.replicate 5 (.go true))).spool :=
  (unspawned_settled_iff _ (by decide) (by decide)).mpr (by decide)

/-- The path of the executable is a link: `process.Start` refuses it, no process has ever
existed, and the segment is left `unknown`. -/
theorem untrusted_path_unknown : ¬ ∀ actions : List Action,
    (({} : Launch).run actions).pc = .done → (({} : Launch).run actions).tree = .unborn →
      Settled (({} : Launch).run actions).spool := by
  intro h
  -- everything up to the test of the platform succeeds, the path does not resolve to itself
  let actions := List.replicate 17 (Action.go true) ++ Action.go false ::
    List.replicate 4 (Action.go true)
  have hspool : (({} : Launch).run actions).spool = [.prepared, .unknown] := by decide
  have hsettled := h actions (by decide) (by decide)
  rw [hspool] at hsettled
  exact absurd hsettled (by decide)

end Launch
end Orchestrator.Host.Worker
