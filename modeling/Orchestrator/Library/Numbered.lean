import Mathlib.Data.List.Nodup
import Mathlib.Data.List.Range
import Mathlib.Algebra.Order.Group.Unbundled.Int

/-!
# Consecutive numbers

The numbers a producer gives to what it sends: from 1 on, none left out.
-/
namespace Library

/-- The numbers from 1 to `n`. -/
def upTo (n : Nat) : List Int := (List.range n).map (fun i : Nat => (i : Int) + 1)

@[simp] theorem upTo_zero : upTo 0 = [] := rfl

theorem upTo_succ (n : Nat) : upTo (n + 1) = upTo n ++ [(n : Int) + 1] := by
  simp [upTo, List.range_succ]

@[simp] theorem length_upTo (n : Nat) : (upTo n).length = n := by simp [upTo]

theorem mem_upTo {n : Nat} {i : Int} : i ∈ upTo n ↔ 1 ≤ i ∧ i ≤ n := by
  simp only [upTo, List.mem_map, List.mem_range]
  constructor
  · rintro ⟨k, hk, rfl⟩
    omega
  · intro h
    exact ⟨(i - 1).toNat, by omega, by omega⟩

theorem nodup_upTo (n : Nat) : (upTo n).Nodup := by
  refine List.Nodup.map (fun i j h => ?_) List.nodup_range
  omega

theorem getElem_upTo {n i : Nat} (h : i < (upTo n).length) : (upTo n)[i] = (i : Int) + 1 := by
  simp [upTo]

section Numbered
variable {α β γ : Type*} {n m : Nat} {as : List α} {bs : List β} {k : α → Int} {l : β → Int}

/-- The item numbered `i + 1` stands at `i`. -/
theorem number_getElem (h : as.map k = upTo n) {i : Nat} (hi : i < as.length) :
    k as[i] = (i : Int) + 1 := by
  have hmap : i < (as.map k).length := by rwa [List.length_map]
  have hget : (as.map k)[i] = k as[i] := List.getElem_map k
  rw [← hget]
  simp only [h, getElem_upTo]

/-- A numbered list whose items stand in another one under the same numbers is a
prefix of it. -/
theorem prefix_of_numbered {f : α → γ} {g : β → γ} (ha : as.map k = upTo n)
    (hb : bs.map l = upTo m) (h : ∀ a ∈ as, ∃ b ∈ bs, l b = k a ∧ f a = g b) :
    as.map f <+: bs.map g := by
  have hat : ∀ i (hi : i < as.length), ∃ hj : i < bs.length, f as[i] = g bs[i] := by
    intro i hi
    obtain ⟨b, hbm, hnum, heq⟩ := h as[i] (List.getElem_mem hi)
    obtain ⟨j, hj, rfl⟩ := List.getElem_of_mem hbm
    rw [number_getElem ha hi, number_getElem hb hj] at hnum
    obtain rfl : j = i := by omega
    exact ⟨hj, heq⟩
  have hlen : as.length ≤ bs.length := by
    cases hn : as.length with
    | zero => exact Nat.zero_le _
    | succ n => exact (hat n (by omega)).1
  rw [List.prefix_iff_eq_take]
  apply List.ext_getElem
  · simp [hlen]
  · intro i hi hi'
    rw [List.length_map] at hi
    obtain ⟨hj, heq⟩ := hat i hi
    simpa using heq

end Numbered

/-! ## The greatest number -/

theorem foldr_max_le {l : List Int} {b m : Int} (hl : ∀ i ∈ l, i ≤ m) (hb : b ≤ m) :
    l.foldr max b ≤ m := by
  induction l with
  | nil => exact hb
  | cons i l ih =>
    exact max_le (hl i List.mem_cons_self) (ih fun j hj => hl j (List.mem_cons_of_mem i hj))

theorem le_foldr_max {l : List Int} {b i : Int} (hi : i ∈ l) : i ≤ l.foldr max b := by
  induction l with
  | nil => cases hi
  | cons j l ih =>
    cases hi with
    | head => exact le_max_left _ _
    | tail _ hi => exact (ih hi).trans (le_max_right _ _)

theorem base_le_foldr_max (l : List Int) (b : Int) : b ≤ l.foldr max b := by
  induction l with
  | nil => exact le_refl b
  | cons i l ih => exact ih.trans (le_max_right _ _)

/-- The greatest of the numbers, as a fold from 0 finds it. -/
theorem foldr_max_upTo (n : Nat) : (upTo n).foldr max 0 = n := by
  apply le_antisymm
  · exact foldr_max_le (fun i hi => (mem_upTo.mp hi).2) (by omega)
  · cases n with
    | zero => rfl
    | succ n => exact le_foldr_max (mem_upTo.mpr (by omega))

end Library
