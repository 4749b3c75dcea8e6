import Mathlib.Tactic
import Mathlib.Data.Nat.Digits.Lemmas

/-!
# Positional numerals

Digit strings in any base, most significant digit first, as a reader that
accumulates digit by digit sees them.
-/
namespace Numeral

/-- The number a digit string denotes, accumulated from the left. -/
def value (base : Nat) (digits : List Nat) : Nat :=
  digits.foldl (fun acc d => acc * base + d) 0

/-- The digits of `n` without leading zeros; zero is written as one digit. -/
def write (base n : Nat) : List Nat :=
  if n = 0 then [0] else (Nat.digits base n).reverse

theorem value_eq_ofDigits (base : Nat) (digits : List Nat) :
    value base digits = Nat.ofDigits base digits.reverse := by
  rw [value, Nat.ofDigits_eq_foldr, List.foldr_reverse]
  congr 1
  funext acc d
  simp only [Nat.cast_id]
  ring

/-- Reading back what was written. -/
@[simp] theorem value_write (base n : Nat) : value base (write base n) = n := by
  rw [value_eq_ofDigits, write]
  split
  next zero => simp [zero]
  · rw [List.reverse_reverse, Nat.ofDigits_digits]

theorem write_ne_nil (base n : Nat) : write base n ≠ [] := by
  unfold write
  split
  · simp
  next nonzero => simpa [Nat.digits_eq_nil_iff_eq_zero] using nonzero

theorem lt_of_mem_write {base n d : Nat} (hb : 1 < base) (h : d ∈ write base n) : d < base := by
  unfold write at h
  split at h
  · simp only [List.mem_singleton] at h
    omega
  · exact Nat.digits_lt_base hb (List.mem_reverse.mp h)

end Numeral
