import Mathlib.Logic.Basic
import Mathlib.Data.List.Basic

/-!
# Passes repeated until nothing changes

The loop `for changed { changed = false; … }`: a pass visits some items in
place, and passes are repeated until one leaves the state alone. A measure that
every effective visit lowers bounds the number of passes, so the loop ends in a
state that no visit changes, whatever the order of the visits.
-/
namespace Library

variable {σ ι : Type*} {m : σ → Nat}

def stabilize [DecidableEq σ] (f : σ → σ) : Nat → σ → σ
  | 0, s => s
  | n + 1, s => if f s = s then s else stabilize f n (f s)

/-- Every application that changes the state lowers the measure. -/
def Shrinks (m : σ → Nat) (f : σ → σ) : Prop := ∀ s, f s = s ∨ m (f s) < m s

theorem stabilize_invariant [DecidableEq σ] {f : σ → σ} {I : σ → Prop} {s : σ} (n : Nat)
    (h : I s) (hf : ∀ s, I s → I (f s)) : I (stabilize f n s) := by
  induction n generalizing s with
  | zero => exact h
  | succ n ih =>
    unfold stabilize
    split
    · exact h
    · exact ih (hf s h)

/-- With as many passes as the measure allows, the loop stops by itself. -/
theorem stabilize_fixed [DecidableEq σ] {f : σ → σ} (hf : Shrinks m f) {n : Nat} {s : σ}
    (hn : m s ≤ n) : f (stabilize f n s) = stabilize f n s := by
  induction n generalizing s with
  | zero =>
    rcases hf s with h | h
    · exact h
    · omega
  | succ n ih =>
    unfold stabilize
    split
    · assumption
    · rename_i hne
      have hlt : m (f s) < m s := (hf s).resolve_left hne
      exact ih (by omega)

section Pass
variable {visit : σ → ι → σ}

theorem foldl_shrinks (hv : ∀ i, Shrinks m (visit · i)) (is : List ι) :
    Shrinks m (is.foldl visit ·) := by
  induction is with
  | nil => intro s; exact .inl rfl
  | cons i is ih =>
    intro s
    change is.foldl visit (visit s i) = s ∨ m (is.foldl visit (visit s i)) < m s
    rcases hv i s with hi | hi
    · rw [show visit s i = s from hi]; exact ih s
    · change m (visit s i) < m s at hi
      rcases ih (visit s i) with hr | hr
      · rw [show is.foldl visit (visit s i) = visit s i from hr]; exact .inr hi
      · exact .inr (Nat.lt_trans hr hi)

/-- A pass that leaves the state alone consists of visits that do. -/
theorem foldl_fixed (hv : ∀ i, Shrinks m (visit · i)) {is : List ι} {s : σ}
    (h : is.foldl visit s = s) : ∀ i ∈ is, visit s i = s := by
  induction is with
  | nil => simp
  | cons i is ih =>
    have hi : visit s i = s := by
      rcases hv i s with hi | hi
      · exact hi
      · change m (visit s i) < m s at hi
        have hle : m (is.foldl visit (visit s i)) ≤ m (visit s i) := by
          rcases foldl_shrinks hv is (visit s i) with hr | hr
          · exact Nat.le_of_eq (congrArg m hr)
          · exact Nat.le_of_lt hr
        rw [show is.foldl visit (visit s i) = s from h] at hle
        omega
    rw [List.foldl_cons, hi] at h
    intro j hj
    rcases List.mem_cons.mp hj with rfl | hj
    · exact hi
    · exact ih h j hj

end Pass
end Library
