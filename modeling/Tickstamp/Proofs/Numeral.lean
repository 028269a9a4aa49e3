import Mathlib.Data.List.Induction
import Tickstamp.Key
import Tickstamp.Proofs.Packing

/-!
# Numerals of fixed width

Digits below the base and numbers below its power stand for each other, the
symbols to the base 62 are told apart by their bytes, and a text of symbols has
one byte for each digit. The width for a count of bits is the least that is
wide enough.
-/

namespace Tickstamp.Numeral

theorem digits_lt {base : Nat} (positive : 0 < base) (width n : Nat) :
    ∀ d ∈ digits base width n, d < base := by
  induction width generalizing n with
  | zero => simp [digits]
  | succ width ih =>
    intro d hd
    rw [digits, List.mem_append, List.mem_singleton] at hd
    rcases hd with high | rfl
    · exact ih (n / base) d high
    · exact Nat.mod_lt n positive

theorem value_lt {base : Nat} {ds : List Nat} (below : ∀ d ∈ ds, d < base) :
    value base ds < base ^ ds.length := by
  induction ds using List.reverseRecOn with
  | nil => simp [value]
  | append_singleton high d ih =>
    have highs : ∀ e ∈ high, e < base := fun e he => below e (by simp [he])
    have last : d < base := below d (by simp)
    rw [value_append_singleton, List.length_append, List.length_singleton, Nat.pow_succ]
    exact mul_add_lt_mul (ih highs) last

theorem digits_value {base : Nat} {ds : List Nat} (below : ∀ d ∈ ds, d < base) :
    digits base ds.length (value base ds) = ds := by
  induction ds using List.reverseRecOn with
  | nil => rfl
  | append_singleton high d ih =>
    have highs : ∀ e ∈ high, e < base := fun e he => below e (by simp [he])
    have last : d < base := below d (by simp)
    rw [List.length_append, List.length_singleton, digits, value_append_singleton,
      mul_add_div_of_lt last, Nat.mul_add_mod_of_lt last, ih highs]

/-- The first digit counts for the base to the power of the digits after it. -/
theorem value_cons (base d : Nat) (ds : List Nat) :
    value base (d :: ds) = d * base ^ ds.length + value base ds := by
  induction ds using List.reverseRecOn with
  | nil => simp [value]
  | append_singleton high e ih =>
    rw [← List.cons_append, value_append_singleton, value_append_singleton, ih,
      List.length_append, List.length_singleton, Nat.pow_succ, Nat.add_mul, Nat.mul_assoc,
      Nat.add_assoc]

/-- A number before the digits takes in the first of them. -/
theorem carry (base before d : Nat) (ds : List Nat) :
    before * base ^ (d :: ds).length + value base (d :: ds) =
      (before * base + d) * base ^ ds.length + value base ds := by
  rw [value_cons, List.length_cons, Nat.pow_succ', Nat.add_mul, Nat.mul_assoc, Nat.add_assoc]

/-- The chosen width is the least that tells all numbers of so many bits apart. -/
theorem widthForBits_le_iff (bits width : Nat) :
    widthForBits bits ≤ width ↔ 2 ^ bits ≤ 62 ^ width := by
  -- a width that is enough stays enough when it grows
  have grow {w w' : Nat} (h : w ≤ w') : 62 ^ w ≤ 62 ^ w' := Nat.pow_le_pow_right (by decide) h
  cases found : (List.range bits).find? fun w => decide (Nat.pow 2 bits ≤ Nat.pow 62 w) with
  | none =>
    have enough : 2 ^ bits ≤ 62 ^ bits := Nat.pow_le_pow_left (by decide) bits
    have least : ∀ w < bits, ¬ 2 ^ bits ≤ 62 ^ w := by
      simpa using found
    rw [widthForBits, found, Option.getD_none]
    constructor
    · intro h
      exact Nat.le_trans enough (grow h)
    · intro h
      by_contra narrow
      exact least width (by omega) h
  | some first =>
    obtain ⟨enough, _, least⟩ := List.find?_range_eq_some.mp found
    simp only [Bool.not_eq_true', decide_eq_true_eq, decide_eq_false_iff_not] at enough least
    rw [widthForBits, found, Option.getD_some]
    constructor
    · intro h
      exact Nat.le_trans enough (grow h)
    · intro h
      by_contra narrow
      exact least width (by omega) h

theorem toNat_symbol {d : Nat} (h : d < 62) :
    (symbol d).toUInt8.toNat = if d < 10 then 48 + d else if d < 36 then 55 + d else 61 + d := by
  revert d
  decide

theorem symbol_lt {d : Nat} (h : d < 62) : (symbol d).toNat < 128 := by
  revert d
  decide

/-- A byte stands for a digit exactly if it is the byte of the symbol for that digit. -/
theorem digitOfByte?_eq_some_iff (byte : UInt8) (d : Nat) :
    digitOfByte? byte = some d ↔ d < 62 ∧ byte = (symbol d).toUInt8 := by
  constructor
  · intro read
    simp only [digitOfByte?] at read
    have range : d < 62 := by
      grind
    refine ⟨range, ?_⟩
    apply UInt8.toNat_inj.mp
    rw [toNat_symbol range]
    grind
  · rintro ⟨range, rfl⟩
    simp only [digitOfByte?]
    rw [toNat_symbol range]
    grind

end Tickstamp.Numeral
