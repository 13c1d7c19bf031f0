import Mathlib.Data.List.Basic

/-!
# Programs that ask their surroundings

A program asks one operation after another and goes on with whatever is answered; it may return
early. Its executions are those under all answers, so what is shown of every execution holds
whatever the operations do.
-/
namespace Library

/-- Operations `Op`, answered by `Ans`; `ρ` is returned early. -/
inductive Prog (Op : Type) (Ans : Op → Type) (ρ α : Type) where
  | done (a : α)
  | exit (r : ρ)
  | ask (op : Op) (k : Ans op → Prog Op Ans ρ α)

/-- An operation and its answer. -/
abbrev Exchange (Op : Type) (Ans : Op → Type) := (op : Op) × Ans op

namespace Prog
variable {Op : Type} {Ans : Op → Type} {ρ α β : Type}

def bind : Prog Op Ans ρ α → (α → Prog Op Ans ρ β) → Prog Op Ans ρ β
  | .done a, f => f a
  | .exit r, _ => .exit r
  | .ask op k, f => .ask op fun ans => bind (k ans) f

instance : Monad (Prog Op Ans ρ) where
  pure := .done
  bind := bind

def call (op : Op) : Prog Op Ans ρ (Ans op) := .ask op .done

/-- The executions of a program: what was asked and answered, and what is returned. -/
inductive Exec : Prog Op Ans ρ α → List (Exchange Op Ans) → Except ρ α → Prop
  | done (a : α) : Exec (.done a) [] (.ok a)
  | exit (r : ρ) : Exec (.exit r) [] (.error r)
  | ask {op : Op} {k : Ans op → Prog Op Ans ρ α} {t : List (Exchange Op Ans)} {r : Except ρ α}
      (ans : Ans op) (h : Exec (k ans) t r) : Exec (.ask op k) (⟨op, ans⟩ :: t) r

/-- What a function returns that ends with `α` being `ρ`. -/
def Returns (p : Prog Op Ans ρ ρ) (t : List (Exchange Op Ans)) (r : ρ) : Prop :=
  Exec p t (.ok r) ∨ Exec p t (.error r)

/-- Every execution satisfies `Q`. -/
def Ensures (p : Prog Op Ans ρ α) (Q : List (Exchange Op Ans) → Except ρ α → Prop) : Prop :=
  ∀ t r, Exec p t r → Q t r

section
variable {p : Prog Op Ans ρ α} {f : α → Prog Op Ans ρ β} {t : List (Exchange Op Ans)}
  {Q : List (Exchange Op Ans) → Except ρ β → Prop}

theorem Exec.bind_cases {r : Except ρ β} (h : Exec (p >>= f) t r) :
    (∃ e, Exec p t (.error e) ∧ r = .error e) ∨
      ∃ first a rest, Exec p first (.ok a) ∧ Exec (f a) rest r ∧ t = first ++ rest := by
  induction p generalizing t with
  | done a => exact .inr ⟨[], a, t, .done a, h, rfl⟩
  | exit e =>
    cases h
    exact .inl ⟨e, .exit e, rfl⟩
  | ask op k ih =>
    cases h with
    | ask ans h =>
      obtain ⟨e, hexit, rfl⟩ | ⟨first, a, rest, hfirst, hrest, rfl⟩ := ih ans h
      · exact .inl ⟨e, .ask ans hexit, rfl⟩
      · exact .inr ⟨_, a, rest, .ask ans hfirst, hrest, rfl⟩

theorem ensures_done {a : α} {Q : List (Exchange Op Ans) → Except ρ α → Prop}
    (h : Q [] (.ok a)) : Ensures (.done a) Q := by
  intro t r hr
  cases hr
  exact h

theorem ensures_exit {e : ρ} {Q : List (Exchange Op Ans) → Except ρ α → Prop}
    (h : Q [] (.error e)) : Ensures (.exit e) Q := by
  intro t r hr
  cases hr
  exact h

/-- The rule for one program after another. -/
theorem Ensures.bind (h : Ensures p fun first r => match r with
      | .error e => Q first (.error e)
      | .ok a => Ensures (f a) fun rest r' => Q (first ++ rest) r') :
    Ensures (p >>= f) Q := by
  intro t r hr
  obtain ⟨e, hexit, rfl⟩ | ⟨first, a, rest, hfirst, hrest, rfl⟩ := hr.bind_cases
  · exact h _ _ hexit
  · exact h _ _ hfirst _ _ hrest

/-- The rule for an operation: what follows is right for every answer. -/
theorem ensures_call {op : Op} {f : Ans op → Prog Op Ans ρ β}
    (h : ∀ ans, Ensures (f ans) fun rest r => Q (⟨op, ans⟩ :: rest) r) :
    Ensures (call op >>= f) Q := by
  intro t r hr
  cases hr with
  | ask ans hrest => exact h ans _ _ hrest

theorem Ensures.imp {Q Q' : List (Exchange Op Ans) → Except ρ α → Prop} (h : Ensures p Q)
    (hQ : ∀ t r, Q t r → Q' t r) : Ensures p Q' :=
  fun t r hr => hQ t r (h t r hr)

theorem Ensures.and {Q Q' : List (Exchange Op Ans) → Except ρ α → Prop} (h : Ensures p Q)
    (h' : Ensures p Q') : Ensures p fun t r => Q t r ∧ Q' t r :=
  fun t r hr => ⟨h t r hr, h' t r hr⟩

end

/-! ## Fixed surroundings -/

/-- The execution under answers that depend on the operation alone. -/
def run (env : ∀ op, Ans op) : Prog Op Ans ρ α → List (Exchange Op Ans) × Except ρ α
  | .done a => ([], .ok a)
  | .exit r => ([], .error r)
  | .ask op k => let (t, r) := run env (k (env op)); (⟨op, env op⟩ :: t, r)

theorem exec_run (env : ∀ op, Ans op) (p : Prog Op Ans ρ α) :
    Exec p (p.run env).1 (p.run env).2 := by
  induction p with
  | done a => exact .done a
  | exit r => exact .exit r
  | ask op k ih => exact .ask (env op) (ih (env op))

/-- Fixed surroundings give their own answers. -/
theorem answer_of_mem_run {env : ∀ op, Ans op} {p : Prog Op Ans ρ α} {e : Exchange Op Ans}
    (h : e ∈ (p.run env).1) : e.2 = env e.1 := by
  induction p with
  | done a => cases h
  | exit r => cases h
  | ask op k ih =>
    rcases List.mem_cons.mp h with rfl | h
    · rfl
    · exact ih (env op) h

end Prog
end Library
