/-!
# Positional numerals of fixed width

`digits` writes the low part of a number with a given count of digits, most significant first, and
`value` reads digits back. A number that needs more digits loses its high part; the modules that
write stamps choose a width at which nothing is lost.
-/
namespace Tickstamp.Numeral

/-- The last `width` digits of `n` to the base `base`, most significant first. -/
def digits (base : Nat) : (width : Nat) → Nat → List Nat
  | 0, _ => []
  | width + 1, n => digits base width (n / base) ++ [n % base]

def value (base : Nat) (ds : List Nat) : Nat :=
  ds.foldl (fun v d => v * base + d) 0

/-- The least count of digits to the base 62 that tells all numbers of `bits` bits apart. -/
def widthForBits (bits : Nat) : Nat :=
  ((List.range bits).find? fun width => decide (Nat.pow 2 bits ≤ Nat.pow 62 width)).getD bits

/-- Digits to the base 62 in ASCII order: `0` to `9`, `A` to `Z`, `a` to `z`. -/
def symbol (digit : Nat) : Char :=
  if digit < 10 then Char.ofNat (48 + digit)
  else if digit < 36 then Char.ofNat (55 + digit)
  else Char.ofNat (61 + digit)

def digitOfByte? (byte : UInt8) : Option Nat :=
  let b := byte.toNat
  if 48 ≤ b ∧ b ≤ 57 then some (b - 48)
  else if 65 ≤ b ∧ b ≤ 90 then some (b - 55)
  else if 97 ≤ b ∧ b ≤ 122 then some (b - 61)
  else none

def hexSymbol (digit : Nat) : Char :=
  if digit < 10 then Char.ofNat (48 + digit) else Char.ofNat (87 + digit)

def radix62 (width n : Nat) : String :=
  String.ofList ((digits 62 width n).map symbol)

def hexadecimal (width n : Nat) : String :=
  String.ofList ((digits 16 width n).map hexSymbol)

def decimal (width n : Nat) : String :=
  String.ofList ((digits 10 width n).map hexSymbol)

@[simp] theorem length_digits (base width n : Nat) : (digits base width n).length = width := by
  induction width generalizing n with
  | zero => rfl
  | succ width ih => simp [digits, ih]

@[simp] theorem value_append_singleton (base : Nat) (ds : List Nat) (d : Nat) :
    value base (ds ++ [d]) = value base ds * base + d := by
  simp [value]

/-- Reading back gives the number without the digits that did not fit. -/
theorem value_digits (base width n : Nat) :
    value base (digits base width n) = n % Nat.pow base width := by
  induction width generalizing n with
  | zero => simp [digits, value, Nat.mod_one]
  | succ width ih =>
    have power : Nat.pow base (width + 1) = base * Nat.pow base width := Nat.pow_succ'
    rw [digits, value_append_singleton, ih, power, Nat.mod_mul, Nat.mul_comm base, Nat.add_comm]

end Tickstamp.Numeral
