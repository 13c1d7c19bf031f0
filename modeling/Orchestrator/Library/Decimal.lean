import Mathlib.Data.List.DropRight
import Mathlib.Algebra.GroupWithZero.Nat

/-!
# Decimal numbers in text

Reading a number digit by digit, up to a largest one, undoes writing it.
-/
namespace Library

/-- Digits read after `n`: 0 when a character is none, `limit` when the number is beyond it. -/
def readDigits (limit : Nat) : List Char → Nat → Nat
  | [], n => n
  | c :: cs, n =>
    if c.isDigit then
      let next := 10 * n + (c.toNat - '0'.toNat)
      if limit < next then limit else readDigits limit cs next
    else 0

section
variable {limit n : Nat} {cs : List Char}

theorem le_ofDigitChars : n ≤ Nat.ofDigitChars 10 cs n := by
  induction cs generalizing n with
  | nil => exact le_refl _
  | cons c cs ih =>
    rw [Nat.ofDigitChars_cons]
    exact le_trans (by omega) ih

theorem readDigits_eq (hd : ∀ c ∈ cs, c.isDigit = true) (hle : Nat.ofDigitChars 10 cs n ≤ limit) :
    readDigits limit cs n = Nat.ofDigitChars 10 cs n := by
  induction cs generalizing n with
  | nil => rfl
  | cons c cs ih =>
    rw [Nat.ofDigitChars_cons] at hle ⊢
    have hnext := le_ofDigitChars.trans hle
    simp only [readDigits, if_pos (hd c List.mem_cons_self), if_neg (not_lt.mpr hnext)]
    exact ih (fun c hc => hd c (List.mem_cons_of_mem _ hc)) hle

theorem isDigit_of_mem {c : Char} (hc : c ∈ Nat.toDigits 10 n) : c.isDigit = true :=
  Nat.isDigit_of_mem_toDigits (by omega) (by omega) hc

theorem readDigits_toDigits (h : n ≤ limit) : readDigits limit (Nat.toDigits 10 n) 0 = n := by
  rw [readDigits_eq (fun _ => isDigit_of_mem), Nat.ofDigitChars_ten_toDigits]
  rwa [Nat.ofDigitChars_ten_toDigits]

/-- A digit is one byte. -/
theorem utf8Size_digit {c : Char} (h : c.isDigit = true) : c.utf8Size = 1 := by
  simp only [Char.isDigit, Bool.and_eq_true, decide_eq_true_eq, ge_iff_le] at h
  rw [Char.utf8Size_eq_one_iff, UInt32.le_iff_toNat_le]
  have hle := UInt32.le_iff_toNat_le.mp h.2
  exact hle.trans (by decide)

theorem utf8Size_digits (hd : ∀ c ∈ cs, c.isDigit = true) :
    (cs.map Char.utf8Size).sum = cs.length := by
  induction cs with
  | nil => rfl
  | cons c cs ih =>
    rw [List.map_cons, List.sum_cons, utf8Size_digit (hd c List.mem_cons_self),
      ih fun c hc => hd c (List.mem_cons_of_mem _ hc), List.length_cons]
    omega

end
end Library
