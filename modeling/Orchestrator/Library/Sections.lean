import Orchestrator.Library.Run
import Mathlib.Logic.Function.Basic

/-!
# Sections under a lock

Processes that work on shared files under one lock, operation by operation. The lock is that of
an open file: a process that dies gives it back, and leaves the files as they are.
-/
namespace Library

variable {π σ ι ρ α : Type}

/-- Where an operation leads: to the next one, to one for which the lock is taken again, or back
to the caller. -/
inductive Leads (ρ α : Type) where
  | go (r : ρ)
  | yield (r : ρ)
  | done (a : α)
  deriving DecidableEq, Repr

/-- What the processes run: where a call begins, and what the operation at a place does. -/
structure Sections (σ ι ρ α : Type) where
  start : ι → ρ
  step : ρ → σ → σ × Leads ρ α

/-- The processes beside their files: the one that has the lock, those that wait for it, and what
has been returned. -/
structure Crowd (π σ ρ α : Type) where
  files : σ
  holder : Option (π × ρ)
  waiting : π → Option ρ
  returned : List (π × α)

/-- Files that no process works on. -/
def Crowd.quiet (files : σ) : Crowd π σ ρ α := ⟨files, none, fun _ => none, []⟩

inductive Act (π ι : Type) where
  | call (p : π) (i : ι)
  | acquire (p : π)
  | operate
  | crash (p : π)
  deriving DecidableEq, Repr

namespace Sections
variable [DecidableEq π] (m : Sections σ ι ρ α)

/-- The holder's operation. -/
def operate (w : Crowd π σ ρ α) (p : π) (r : ρ) : Crowd π σ ρ α :=
  match m.step r w.files with
  | (files, .go r') => { w with files := files, holder := some (p, r') }
  | (files, .yield r') =>
    { w with files := files, holder := none, waiting := Function.update w.waiting p (some r') }
  | (files, .done a) =>
    { w with files := files, holder := none, returned := w.returned ++ [(p, a)] }

def next (w : Crowd π σ ρ α) : Act π ι → Crowd π σ ρ α
  | .call p i =>
    if w.waiting p = none ∧ w.holder.map Prod.fst ≠ some p then
      { w with waiting := Function.update w.waiting p (some (m.start i)) }
    else w
  | .acquire p => match w.holder, w.waiting p with
    | none, some r =>
      { w with holder := some (p, r), waiting := Function.update w.waiting p none }
    | _, _ => w
  | .operate => match w.holder with
    | some (p, r) => m.operate w p r
    | none => w
  | .crash p =>
    { w with
      holder := if w.holder.map Prod.fst = some p then none else w.holder
      waiting := Function.update w.waiting p none }

section
variable {m} {w : Crowd π σ ρ α} {p : π} {r : ρ} {act : Act π ι} {a : α}

/-- Whatever comes of an operation, the files are those that it leaves. -/
theorem files_operate (h : w.holder = some (p, r)) :
    (m.next w .operate).files = (m.step r w.files).1 := by
  rw [next, h]
  dsimp only [operate]
  split <;> (next hstep => rw [hstep])

/-- The holder goes on where its operation leads. -/
theorem leads_of_holder {q : π} {r' : ρ} (h : w.holder = some (p, r))
    (hnext : (m.next w .operate).holder = some (q, r')) :
    (m.step r w.files).2 = .go r' := by
  rw [next, h] at hnext
  dsimp only [operate] at hnext
  split at hnext
  next hstep =>
    cases hnext
    rw [hstep]
  · cases hnext
  · cases hnext

/-- What is returned is returned by the operation of the holder. -/
theorem step_of_returned (h : (m.next w act).returned = w.returned ++ [(p, a)]) :
    act = .operate ∧ ∃ r, w.holder = some (p, r) ∧ (m.step r w.files).2 = .done a := by
  have hself (h : w.returned = w.returned ++ [(p, a)]) : False := by simp at h
  cases act with
  | call q i =>
    dsimp only [next] at h
    split at h
    · exact (hself h).elim
    · exact (hself h).elim
  | acquire q =>
    dsimp only [next] at h
    split at h
    · exact (hself h).elim
    · exact (hself h).elim
  | crash q => exact (hself h).elim
  | operate =>
    refine ⟨rfl, ?_⟩
    dsimp only [next] at h
    split at h
    next q r hholder =>
      unfold operate at h
      split at h
      · exact (hself h).elim
      · exact (hself h).elim
      next s' b hstep =>
        have hlast := List.append_cancel_left h
        cases hlast
        exact ⟨r, hholder, by rw [hstep]⟩
    · exact (hself h).elim

end

end Sections

/-! ## Invariants -/

/-- An invariant of the files while no process has the lock, and at each place of a section. A
section is only left where it may be: by a crash at places that `mayCrash`, and by operations that
`mayStep`. -/
structure Rule (π : Type) (m : Sections σ ι ρ α) where
  waits : ρ → Prop
  quiet : σ → List (π × α) → Prop
  inside : ρ → σ → List (π × α) → Prop
  mayCrash : ρ → σ → Prop
  mayStep : ρ → σ → Prop
  start : ∀ i, waits (m.start i)
  enter : ∀ {r s l}, waits r → quiet s l → inside r s l
  crash : ∀ {r s l}, inside r s l → mayCrash r s → quiet s l
  go : ∀ {r s l s' r'}, inside r s l → mayStep r s → m.step r s = (s', .go r') → inside r' s' l
  yield : ∀ {r s l s' r'}, inside r s l → mayStep r s → m.step r s = (s', .yield r') →
    quiet s' l ∧ waits r'
  done : ∀ {r s l s' a}, inside r s l → mayStep r s → m.step r s = (s', .done a) →
    ∀ p : π, quiet s' (l ++ [(p, a)])

namespace Rule
variable {m : Sections σ ι ρ α} (rule : Rule π m)

structure Holds (w : Crowd π σ ρ α) : Prop where
  quiet : w.holder = none → rule.quiet w.files w.returned
  inside : ∀ {p r}, w.holder = some (p, r) → rule.inside r w.files w.returned
  waits : ∀ {p r}, w.waiting p = some r → rule.waits r

/-- The act leaves no section where it may not. -/
def Allows (w : Crowd π σ ρ α) : Act π ι → Prop
  | .crash p => ∀ r, w.holder = some (p, r) → rule.mayCrash r w.files
  | .operate => ∀ p r, w.holder = some (p, r) → rule.mayStep r w.files
  | _ => True

theorem holds_quiet {files : σ} (h : rule.quiet files []) : rule.Holds (.quiet files) :=
  ⟨fun _ => h, nofun, nofun⟩

variable [DecidableEq π] {rule}
variable {w : Crowd π σ ρ α} {act : Act π ι} {acts : List (Act π ι)}

theorem waits_update {p : π} {x : Option ρ} (h : ∀ {p r}, w.waiting p = some r → rule.waits r)
    (hx : ∀ r, x = some r → rule.waits r) {q : π} {r : ρ}
    (hq : Function.update w.waiting p x q = some r) : rule.waits r := by
  by_cases hqp : q = p
  · subst hqp
    rw [Function.update_self] at hq
    exact hx r hq
  · rw [Function.update_of_ne hqp] at hq
    exact h hq

theorem waits_clear {p : π} (h : ∀ {p r}, w.waiting p = some r → rule.waits r) {q : π} {r : ρ}
    (hq : Function.update w.waiting p none q = some r) : rule.waits r :=
  waits_update h (fun _ hr => by cases hr) hq

theorem Holds.next (h : rule.Holds w) (hact : rule.Allows w act) : rule.Holds (m.next w act) := by
  cases act with
  | call p i =>
    dsimp only [Sections.next]
    split
    · exact ⟨h.quiet, h.inside, waits_update h.waits fun r hr =>
        Option.some_inj.1 hr ▸ rule.start i⟩
    · exact h
  | acquire p =>
    dsimp only [Sections.next]
    split
    next r hholder hwaiting =>
      refine ⟨nofun, fun hr => ?_, waits_clear h.waits⟩
      cases hr
      exact rule.enter (h.waits hwaiting) (h.quiet hholder)
    · exact h
  | operate =>
    dsimp only [Sections.next]
    split
    next p r hholder =>
      have hinside := h.inside hholder
      have hmay := hact p r hholder
      unfold Sections.operate
      split
      next s' r' hstep =>
        refine ⟨nofun, fun hr => ?_, h.waits⟩
        cases hr
        exact rule.go hinside hmay hstep
      next s' r' hstep =>
        obtain ⟨hquiet, hwaits⟩ := rule.yield hinside hmay hstep
        exact ⟨fun _ => hquiet, nofun, waits_update h.waits fun r hr =>
          Option.some_inj.1 hr ▸ hwaits⟩
      next s' a hstep => exact ⟨fun _ => rule.done hinside hmay hstep p, nofun, h.waits⟩
    · exact h
  | crash p =>
    dsimp only [Sections.next]
    cases hholder : w.holder with
    | none => exact ⟨fun _ => h.quiet hholder, nofun, waits_clear h.waits⟩
    | some at' =>
      obtain ⟨q, r⟩ := at'
      by_cases hq : q = p
      · subst hq
        refine ⟨fun _ => rule.crash (h.inside hholder) (hact r hholder), fun hr => ?_,
          waits_clear h.waits⟩
        simp at hr
      · refine ⟨fun hr => ?_, fun hr => ?_, waits_clear h.waits⟩
        · simp [hq] at hr
        · simp only [Option.map_some, Option.some_inj, hq, if_false] at hr
          exact h.inside (hholder.trans (congrArg some hr))

theorem Holds.run (h : rule.Holds w) (hacts : AllSteps m.next rule.Allows w acts) :
    rule.Holds (run m.next w acts) :=
  run_invariant_when h (fun _ _ hw hact => hw.next hact) hacts

/-- What every operation inside a section keeps of the files, every run does. -/
theorem Holds.relates {R : σ → σ → Prop} (h : rule.Holds w) (refl : ∀ s, R s s)
    (trans : ∀ s t u, R s t → R t u → R s u) (hall : ∀ w act, rule.Allows w act)
    (hstep : ∀ {r s l}, rule.inside r s l → R s (m.step r s).1) :
    R w.files (Library.run m.next w acts).files := by
  refine run_relates (I := rule.Holds) (R := fun w w' => R w.files w'.files) h
    (fun w => refl _) (fun _ _ _ => trans _ _ _) (fun w act hw => hw.next (hall w act))
    fun w act hw => ?_
  cases act with
  | call p i =>
    dsimp only [Sections.next]
    split <;> exact refl _
  | acquire p =>
    dsimp only [Sections.next]
    split <;> exact refl _
  | operate =>
    dsimp only [Sections.next]
    split
    next p r hholder =>
      have hr := hstep (hw.inside hholder)
      unfold Sections.operate
      split <;> (next hs => rwa [hs] at hr)
    · exact refl _
  | crash p => exact refl _

end Rule

/-! ## A process alone -/

namespace Sections
variable (m : Sections σ ι ρ α)

/-- At most `n` operations of a process that nobody disturbs. -/
def complete : Nat → ρ → σ → Option (σ × α)
  | 0, _, _ => none
  | n + 1, r, s => match m.step r s with
    | (s', .done a) => some (s', a)
    | (s', .go r') | (s', .yield r') => complete n r' s'

/-- A process that nobody disturbs gets an answer. -/
def Returns (r : ρ) (s s' : σ) (a : α) : Prop := ∃ n, m.complete n r s = some (s', a)

variable {m} {r r' : ρ} {s s' s₁ : σ} {a : α}

theorem returns_go (h : m.step r s = (s₁, .go r')) :
    m.Returns r s s' a ↔ m.Returns r' s₁ s' a := by
  constructor
  · rintro ⟨_ | n, hn⟩
    · cases hn
    · rw [complete, h] at hn
      exact ⟨n, hn⟩
  · rintro ⟨n, hn⟩
    exact ⟨n + 1, by rw [complete, h]; exact hn⟩

theorem returns_yield (h : m.step r s = (s₁, .yield r')) :
    m.Returns r s s' a ↔ m.Returns r' s₁ s' a := by
  constructor
  · rintro ⟨_ | n, hn⟩
    · cases hn
    · rw [complete, h] at hn
      exact ⟨n, hn⟩
  · rintro ⟨n, hn⟩
    exact ⟨n + 1, by rw [complete, h]; exact hn⟩

theorem returns_done {b : α} (h : m.step r s = (s₁, .done b)) :
    m.Returns r s s' a ↔ s₁ = s' ∧ b = a := by
  constructor
  · rintro ⟨_ | n, hn⟩
    · cases hn
    · rw [complete, h] at hn
      exact Prod.mk.inj (Option.some_inj.1 hn)
  · rintro ⟨rfl, rfl⟩
    exact ⟨1, by rw [complete, h]⟩

theorem complete_mono {n k : Nat} {x : σ × α} (h : m.complete n r s = some x) (hk : n ≤ k) :
    m.complete k r s = some x := by
  induction n generalizing r s k with
  | zero => cases h
  | succ n ih =>
    obtain ⟨k, rfl⟩ : ∃ j, k = j + 1 := ⟨k - 1, by omega⟩
    have hle := Nat.le_of_succ_le_succ hk
    unfold complete at h ⊢
    split at h
    · exact h
    · exact ih h hle
    · exact ih h hle

/-- There is one answer. -/
theorem Returns.eq_of_complete {n : Nat} {x : σ × α} (h : m.Returns r s s' a)
    (hx : m.complete n r s = some x) : x = (s', a) := by
  obtain ⟨k, hk⟩ := h
  have hn := complete_mono hx (Nat.le_max_left n k)
  rw [complete_mono hk (Nat.le_max_right n k)] at hn
  exact (Option.some_inj.1 hn).symm

variable [DecidableEq π] {w : Crowd π σ ρ α} {p : π} {i : ι}

/-- What a process gets alone, it gets as one of many that leave it alone. -/
theorem Returns.operate (h : m.Returns r w.files s' a) (hholder : w.holder = some (p, r))
    (hwaiting : w.waiting p = none) :
    ∃ acts : List (Act π ι), run m.next w acts =
      { w with files := s', holder := none, returned := w.returned ++ [(p, a)] } := by
  obtain ⟨n, hn⟩ := h
  induction n generalizing w r with
  | zero => cases hn
  | succ n ih =>
    have hnext : m.next w .operate = m.operate w p r := by rw [next, hholder]
    unfold complete at hn
    split at hn
    next s₁ b hstep =>
      obtain ⟨rfl, rfl⟩ := Prod.mk.inj (Option.some_inj.1 hn)
      exact ⟨[.operate], by rw [run_cons, hnext, operate, hstep]; rfl⟩
    next s₁ r₁ hstep =>
      have hw : m.next w .operate = { w with files := s₁, holder := some (p, r₁) } := by
        rw [hnext, operate, hstep]
      obtain ⟨acts, hacts⟩ := ih (w := { w with files := s₁, holder := some (p, r₁) }) rfl hwaiting
        hn
      exact ⟨.operate :: acts, by rw [run_cons, hw, hacts]⟩
    next s₁ r₁ hstep =>
      have hw : m.next w .operate = { w with
          files := s₁, holder := none, waiting := Function.update w.waiting p (some r₁) } := by
        rw [hnext, operate, hstep]
      have hacquire : m.next (m.next w .operate) (.acquire p) =
          { w with files := s₁, holder := some (p, r₁) } := by
        rw [hw]
        simp [next, hwaiting]
      obtain ⟨acts, hacts⟩ := ih (w := { w with files := s₁, holder := some (p, r₁) }) rfl hwaiting
        hn
      exact ⟨.operate :: .acquire p :: acts, by rw [run_cons, run_cons, hacquire, hacts]⟩

theorem Returns.call (h : m.Returns (m.start i) w.files s' a) (hholder : w.holder = none)
    (hwaiting : w.waiting p = none) :
    ∃ acts, run m.next w acts =
      { w with files := s', returned := w.returned ++ [(p, a)] } := by
  have hacquire : m.next (m.next w (.call p i)) (.acquire p) =
      { w with holder := some (p, m.start i) } := by
    simp [next, hholder, hwaiting]
  obtain ⟨acts, hacts⟩ := Returns.operate (ι := ι) (m := m) (p := p)
    (w := { w with holder := some (p, m.start i) }) h rfl hwaiting
  refine ⟨.call p i :: .acquire p :: acts, ?_⟩
  rw [run_cons, run_cons, hacquire, hacts, hholder]

end Sections
end Library
