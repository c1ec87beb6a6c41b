import Mathlib.Algebra.Group.Nat.Defs
import Mathlib.Data.List.Basic

/-! Numerals written in pieces. A number whose low digits are written apart has them padded
with zeros to their full width; a numeral of a positive number has no zero in front. -/
namespace Silent.Numerals

theorem noLeadingZero {radix : Nat} (wide : 1 < radix) (n : Nat) (positive : 0 < n) :
    (Nat.toDigits radix n).head? ≠ some '0' := by
  induction n using Nat.strongRecOn with
  | ind n ih =>
    rw [Nat.toDigits_eq_if wide]
    split
    · rw [List.head?_cons, ne_eq, Option.some.injEq, Nat.digitChar_eq_zero]
      omega
    · rw [List.head?_append_of_ne_nil _ Nat.toDigits_ne_nil]
      exact ih _ (Nat.div_lt_self positive wide) (Nat.div_pos (by omega) (by omega))

def padded (radix width n : Nat) : List Char :=
  List.replicate (width - (Nat.toDigits radix n).length) '0' ++ Nat.toDigits radix n

theorem paddedZero {radix width : Nat} (some_ : 0 < width) : padded radix width 0 = List.replicate width '0' := by
  obtain ⟨k, rfl⟩ := Nat.exists_eq_add_of_lt some_
  rw [padded, Nat.toDigits_zero, Nat.zero_add]
  exact List.replicate_succ'.symm

theorem paddedDigit {radix n : Nat} (small : n < radix) : padded radix 1 n = Nat.toDigits radix n := by
  rw [padded, Nat.toDigits_of_lt_base small]
  rfl

/- One digit more at the end. -/
theorem paddedSnoc {radix width n d : Nat} (wide : 1 < radix) (some_ : 0 < width) (small : d < radix) :
    padded radix (width + 1) (radix * n + d) = padded radix width n ++ Nat.toDigits radix d := by
  cases n with
  | zero => rw [paddedZero some_, padded, Nat.mul_zero, Nat.zero_add, Nat.toDigits_of_lt_base small]; rfl
  | succ n =>
    have joined := Nat.toDigits_append_toDigits wide (Nat.succ_pos n) small
    have width_ : width + 1 - (Nat.toDigits radix (radix * (n + 1) + d)).length = width - (Nat.toDigits radix (n + 1)).length := by
      rw [← joined, List.length_append, Nat.toDigits_of_lt_base small, List.length_singleton, Nat.add_sub_add_right]
    rw [padded, width_, ← joined, padded, List.append_assoc]

theorem numeralPieces {radix width n low : Nat} (wide : 1 < radix) (some_ : 0 < width) (positive : 0 < n)
    (fits : low < radix ^ width) :
    Nat.toDigits radix (n * radix ^ width + low) = Nat.toDigits radix n ++ padded radix width low := by
  obtain ⟨more, rfl⟩ : ∃ more, width = more + 1 := ⟨width - 1, by omega⟩
  clear some_
  induction more generalizing low with
  | zero =>
    rw [Nat.zero_add, Nat.pow_one] at fits ⊢
    rw [paddedDigit fits, Nat.mul_comm]
    exact (Nat.toDigits_append_toDigits wide positive fits).symm
  | succ k ih =>
    have narrow : low / radix < radix ^ (k + 1) := by
      rw [Nat.div_lt_iff_lt_mul (by omega)]
      exact fits
    have small : low % radix < radix := Nat.mod_lt low (by omega)
    have front : 0 < n * radix ^ (k + 1) + low / radix := Nat.add_pos_left (Nat.mul_pos positive (Nat.pow_pos (by omega))) _
    have cut : n * radix ^ (k + 1 + 1) + low = radix * (n * radix ^ (k + 1) + low / radix) + low % radix := by
      calc n * radix ^ (k + 1 + 1) + low = n * radix ^ (k + 1) * radix + (radix * (low / radix) + low % radix) := by
            rw [Nat.div_add_mod, Nat.mul_assoc, Nat.pow_succ]
        _ = radix * (n * radix ^ (k + 1) + low / radix) + low % radix := by rw [Nat.mul_comm _ radix, ← Nat.add_assoc, Nat.mul_add]
    have low_ : padded radix (k + 1 + 1) low = padded radix (k + 1) (low / radix) ++ Nat.toDigits radix (low % radix) := by
      rw [← paddedSnoc wide (Nat.succ_pos k) small, Nat.div_add_mod]
    rw [cut, ← Nat.toDigits_append_toDigits wide front small, ih narrow, List.append_assoc, low_]

end Silent.Numerals
