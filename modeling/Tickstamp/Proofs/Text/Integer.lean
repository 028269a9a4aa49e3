import Tickstamp.Text.Integer

/-!
# What is read as a natural number

A natural number is read from a plus, which may be left out, and at least one
ASCII digit; leading zeros count for nothing. It is refused if it reaches the
limit, which no part of it does unless the whole does. The decimal form of a
number is one of the texts that it is read from. Which fault a refused text is
charged with, and numbers with a minus, are not considered.
-/

namespace Tickstamp.Text

/-- A plus, which may be left out, and at least one digit, which together write this number. -/
def Literal (text : String) (n : Nat) : Prop :=
  ∃ digits : List Char, digits ≠ [] ∧ (∀ c ∈ digits, c.isDigit = true) ∧
    (text.toList = digits ∨ text.toList = '+' :: digits) ∧ Nat.ofDigitChars 10 digits 0 = n

/-- A number does not get smaller by the digits that follow it. -/
theorem le_ofDigitChars (acc : Nat) (digits : List Char) :
    acc ≤ Nat.ofDigitChars 10 digits acc := by
  induction digits generalizing acc with
  | nil => exact Nat.le_refl acc
  | cons c rest ih =>
    have first : acc ≤ 10 * acc + (c.toNat - '0'.toNat) := by omega
    exact Nat.le_trans first (ih _)

theorem readDigits_eq_ok_iff {limit acc : Nat} (small : acc < limit) (digits : List Char)
    (n : Nat) :
    readDigits limit acc digits = .ok n ↔
      (∀ c ∈ digits, c.isDigit = true) ∧ Nat.ofDigitChars 10 digits acc = n ∧ n < limit := by
  induction digits generalizing acc with
  | nil =>
    constructor
    · intro read
      cases read
      exact ⟨by simp, rfl, small⟩
    · rintro ⟨_, rfl, _⟩
      rfl
  | cons c rest ih =>
    have next : acc * 10 + (c.toNat - 48) = 10 * acc + (c.toNat - '0'.toNat) := by
      rw [Nat.mul_comm]
      rfl
    rw [readDigits, next, Nat.ofDigitChars_cons, List.forall_mem_cons]
    by_cases digit : c.isDigit = true
    · by_cases fits : 10 * acc + (c.toNat - '0'.toNat) < limit
      · simp only [digit, if_true, if_pos fits, ih fits, true_and]
      · -- the number so far is not larger than the whole
        have grows := le_ofDigitChars (10 * acc + (c.toNat - '0'.toNat)) rest
        simp only [digit, if_true, if_neg fits]
        constructor
        · rintro ⟨⟩
        · rintro ⟨_, rfl, below⟩
          omega
    · simp [digit]

theorem readMagnitude_eq_ok_iff {limit : Nat} (positive : 0 < limit) (digits : List Char)
    (n : Nat) :
    readMagnitude limit digits = .ok n ↔ digits ≠ [] ∧ (∀ c ∈ digits, c.isDigit = true) ∧
      Nat.ofDigitChars 10 digits 0 = n ∧ n < limit := by
  cases digits with
  | nil => simp [readMagnitude]
  | cons c rest => simpa [readMagnitude] using readDigits_eq_ok_iff positive (c :: rest) n

theorem readNatural_of_plus {limit : Nat} {text : String} {digits : List Char}
    (chars : text.toList = '+' :: digits) :
    readNatural limit text = readMagnitude limit digits := by
  simp [readNatural, chars]

theorem readNatural_of_unsigned {limit : Nat} {text : String} (nonempty : text.toList ≠ [])
    (unsigned : ∀ digits, text.toList ≠ '+' :: digits) :
    readNatural limit text = readMagnitude limit text.toList := by
  cases chars : text.toList with
  | nil => exact absurd chars nonempty
  | cons c rest =>
    have first : c ≠ '+' := by
      rintro rfl
      exact unsigned rest chars
    simp [readNatural, chars, first]

/-- Natural numbers below the limit are read from what writes them. -/
theorem readNatural_eq_ok_iff {limit : Nat} (positive : 0 < limit) (text : String) (n : Nat) :
    readNatural limit text = .ok n ↔ Literal text n ∧ n < limit := by
  constructor
  · intro read
    cases chars : text.toList with
    | nil =>
      rw [readNatural, chars] at read
      cases read
    | cons c rest =>
      by_cases plus : c = '+'
      · subst plus
        rw [readNatural_of_plus chars, readMagnitude_eq_ok_iff positive] at read
        obtain ⟨nonempty, digit, value, below⟩ := read
        exact ⟨⟨rest, nonempty, digit, Or.inr chars, value⟩, below⟩
      · have unsigned : ∀ digits, text.toList ≠ '+' :: digits := by
          intro digits signed
          rw [chars] at signed
          exact plus (List.cons.inj signed).1
        rw [readNatural_of_unsigned (by simp [chars]) unsigned,
          readMagnitude_eq_ok_iff positive] at read
        obtain ⟨nonempty, digit, value, below⟩ := read
        exact ⟨⟨text.toList, nonempty, digit, Or.inl rfl, value⟩, below⟩
  · rintro ⟨⟨digits, nonempty, digit, rfl | chars, value⟩, below⟩
    · have unsigned : ∀ rest, text.toList ≠ '+' :: rest := by
        intro rest signed
        rw [signed] at digit
        exact absurd (digit '+' List.mem_cons_self) (by decide)
      rw [readNatural_of_unsigned nonempty unsigned, readMagnitude_eq_ok_iff positive]
      exact ⟨nonempty, digit, value, below⟩
    · rw [readNatural_of_plus chars, readMagnitude_eq_ok_iff positive]
      exact ⟨nonempty, digit, value, below⟩

theorem literal_toString (n : Nat) : Literal (toString n) n := by
  refine ⟨Nat.toDigits 10 n, Nat.toDigits_ne_nil, ?_, Or.inl ?_, Nat.ofDigitChars_ten_toDigits⟩
  · intro c hc
    exact Nat.isDigit_of_mem_toDigits (by decide) (by decide) hc
  · rw [Nat.toString_eq_ofList_toDigits, String.toList_ofList]

end Tickstamp.Text
