import Mathlib.Data.List.TakeWhile
import Tickstamp.Json.Number
import Tickstamp.Proofs.Text.Integer

/-!
# Natural numbers in JSON

The decimal form of a natural number is a well-formed JSON number without a
sign, a fraction or an exponent, and it has the value that was written. A double
can hold every number of 64 bits, though not always exactly. Numbers of other
forms are not considered.
-/

namespace Tickstamp.Json
namespace NumberParts

theorem valueOf_eq (digits : List Char) : valueOf digits = Nat.ofDigitChars 10 digits 0 := by
  have loop (acc : Nat) : (digits.map fun c => c.toNat - 48).foldl (fun v d => v * 10 + d) acc =
      Nat.ofDigitChars 10 digits acc := by
    induction digits generalizing acc with
    | nil => rfl
    | cons c rest ih =>
      rw [List.map_cons, List.foldl_cons, ih, Nat.mul_comm]
      rfl
  exact loop 0

/-- Only zero begins with a zero. -/
theorem head?_toDigits {n : Nat} (positive : n ≠ 0) : (Nat.toDigits 10 n).head? ≠ some '0' := by
  induction n using Nat.strongRecOn with
  | ind n ih =>
    by_cases single : n < 10
    · have digit : ∀ d < 10, d ≠ 0 → Nat.digitChar d ≠ '0' := by decide
      rw [Nat.toDigits_of_lt_base single]
      simpa using digit n single positive
    · have smaller := ih (n / 10) (by omega) (by omega)
      rw [Nat.toDigits_of_base_le (by decide) (by omega)]
      cases high : Nat.toDigits 10 (n / 10) with
      | nil => exact absurd high Nat.toDigits_ne_nil
      | cons c rest =>
        rw [high] at smaller
        exact smaller

theorem digit_of_mem_toDigits (n : Nat) : ∀ c ∈ Nat.toDigits 10 n, c.isDigit = true :=
  fun _ member => Nat.isDigit_of_mem_toDigits (by decide) (by decide) member

/-- Digits alone are read as a number without anything else. -/
theorem read_toDigits (n : Nat) : read (Nat.toDigits 10 n) = some (ofNatural n) := by
  have digit := digit_of_mem_toDigits n
  have whole : (Nat.toDigits 10 n).takeWhile Char.isDigit = Nat.toDigits 10 n :=
    List.takeWhile_eq_self_iff.mpr digit
  have rest : (Nat.toDigits 10 n).dropWhile Char.isDigit = [] :=
    List.dropWhile_eq_nil_iff.mpr digit
  have proper : (!(Nat.toDigits 10 n).isEmpty &&
      ((Nat.toDigits 10 n).length == 1 || (Nat.toDigits 10 n).head? != some '0')) = true := by
    by_cases zero : n = 0
    · subst zero
      decide
    · simp [head?_toDigits zero, Nat.toDigits_ne_nil]
  have unsigned : read (Nat.toDigits 10 n) = readUnsigned false (Nat.toDigits 10 n) := by
    cases written : Nat.toDigits 10 n with
    | nil => exact absurd written Nat.toDigits_ne_nil
    | cons c tail =>
      have minus : c ≠ '-' := by
        rintro rfl
        exact absurd (digit '-' (by rw [written]; exact List.mem_cons_self)) (by decide)
      simp [read, minus]
  rw [unsigned, readUnsigned, whole, rest, proper]
  rfl

theorem natural?_ofNatural (n : Nat) : (ofNatural n).natural? = some n := by
  have value : valueOf (Nat.toDigits 10 n) = n := by
    rw [valueOf_eq]
    exact Nat.ofDigitChars_ten_toDigits
  simp [natural?, ofNatural, value]

/-- As long as the number fits 64 bits, no digit is left over. -/
theorem appendDigits_eq {significand : Nat} {digits : List Char}
    (bound : Nat.ofDigitChars 10 digits significand < UInt64.size) :
    appendDigits significand digits = (Nat.ofDigitChars 10 digits significand, []) := by
  induction digits generalizing significand with
  | nil => rfl
  | cons c rest ih =>
    have next : significand * 10 + (c.toNat - 48) = 10 * significand + (c.toNat - '0'.toNat) := by
      rw [Nat.mul_comm]
      rfl
    have small : 10 * significand + (c.toNat - '0'.toNat) < UInt64.size :=
      Nat.lt_of_le_of_lt (Text.le_ofDigitChars _ rest) bound
    rw [appendDigits, next]
    simp only [if_pos small]
    exact ih bound

theorem nearest_le (n : Nat) : Double.nearest n ≤ 2 * n := by
  by_cases zero : n = 0
  · subst zero
    decide
  · have spacing : Double.spacing n ≤ n := by
      rw [Double.spacing, Nat.shiftLeft_eq, Nat.one_mul]
      exact Nat.le_trans (Nat.pow_le_pow_right (by decide) (Nat.sub_le _ _))
        (Nat.log2_self_le zero)
    have low := Nat.div_mul_le_self n (Double.spacing n)
    rw [Double.nearest]
    split
    · omega
    · rw [Nat.add_mul, Nat.one_mul]
      omega

/-- A double can hold every number of 64 bits. -/
theorem isFinite_ofNatural {n : Nat} (small : n < UInt64.size) :
    (ofNatural n).isFinite = true := by
  have value : Nat.ofDigitChars 10 (Nat.toDigits 10 n) 0 = n := Nat.ofDigitChars_ten_toDigits
  have whole : appendDigits 0 (Nat.toDigits 10 n) = (n, []) := by
    rw [appendDigits_eq (by rwa [value]), value]
  have scale : (ofNatural n).scaled = (n, 0) := by
    simp [scaled, ofNatural, whole, appendDigits]
  have product : Double.productIsFinite n (Nat.pow 10 0) = true := by
    have one : Double.nearest 1 = 1 := by decide
    have near := nearest_le n
    have large : 2 * UInt64.size < Double.limit := by decide
    rw [Double.productIsFinite, Nat.pow_eq, Nat.pow_zero, one, decide_eq_true_eq]
    omega
  rw [isFinite, scale]
  by_cases zero : n = 0
  · exact if_pos (Or.inl zero)
  · have divides : ¬ (n = 0 ∨ (0 : Int) < 0) := by omega
    have overflows : ¬ (largestPower : Int) < 0 := by decide
    exact (if_neg divides).trans ((if_neg overflows).trans product)

end NumberParts
end Tickstamp.Json
