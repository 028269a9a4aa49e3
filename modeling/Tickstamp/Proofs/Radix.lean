import Mathlib.Data.Nat.Digits.Defs
import Mathlib.Order.Bounds.Defs
import Tickstamp.Proofs.Verdict

/-!
# Numerals digit by digit

Numerals to the base 62 are written into a buffer of zeros from its last place,
until nothing is left of the number, and read from the front by multiplying and
adding words; how wide they are is found by multiplying until it is enough. Here
the three loops stand as loops, with a table for the symbols and with operations
that stop at the size of a word. What they compute is the numeral itself, and the
same as what keys are made of. Numbers too large for their width lose digits, but
not unnoticed.
-/

namespace Tickstamp
namespace Numeral

/-- Digits are those of the number, most significant first, with zeros before them. -/
theorem digits_eq_replicate_append {width n : Nat} (fits : n < 62 ^ width) :
    digits 62 width n =
      List.replicate (width - (Nat.digits 62 n).length) 0 ++ (Nat.digits 62 n).reverse := by
  induction width generalizing n with
  | zero =>
    obtain rfl : n = 0 := by simpa using fits
    rfl
  | succ width ih =>
    rw [digits, ih (Nat.div_lt_of_lt_mul (by rwa [← Nat.pow_succ']))]
    rcases Nat.eq_zero_or_pos n with rfl | positive
    · simp [List.replicate_succ']
    · rw [Nat.digits_def' (by decide) positive, List.length_cons, Nat.add_sub_add_right,
        List.reverse_cons, List.append_assoc]

theorem value_eq_ofDigits (ds : List Nat) : value 62 ds = Nat.ofDigits 62 ds.reverse := by
  induction ds using List.reverseRecOn with
  | nil => rfl
  | append_singleton high d ih =>
    rw [value_append_singleton, List.reverse_append, List.reverse_singleton,
      List.singleton_append, Nat.ofDigits_cons, ← ih, Nat.mul_comm, Nat.add_comm]

end Numeral
namespace Radix

open Numeral (digits symbol widthForBits)

/-! ## Writing -/

/-- Stores the digits of a number in places that are listed from the last. It stops as soon as
nothing is left of the number, and says what is left when the places are used up. -/
def store : List UInt8 → UInt64 → List UInt8 × UInt64
  | [], left => ([], left)
  | place :: places, left =>
    if left = 0 then (place :: places, left)
    else
      let (stored, rest) := store places (left / 62)
      (Key.alphabet.getD (left % 62).toNat 0 :: stored, rest)

/-- The text of so many symbols for a number, and what is left of the number. -/
def write (width : Nat) (value : UInt64) : String × UInt64 :=
  let (stored, left) := store (List.replicate width (Key.alphabet.getD 0 0)) value
  (String.ofList (stored.reverse.map Char.ofUInt8), left)

theorem char_alphabet {d : Nat} (h : d < 62) : Char.ofUInt8 (Key.alphabet.getD d 0) = symbol d := by
  revert d
  decide

/-- Places that are not reached hold zeros, as they would if the loop went on. -/
theorem digits_zero (width : Nat) : digits 62 width 0 = List.replicate width 0 := by
  rw [Numeral.digits_eq_replicate_append (Nat.pow_pos (by decide))]
  simp

theorem store_zeros (width : Nat) (value : UInt64) :
    ((store (List.replicate width (Key.alphabet.getD 0 0)) value).1.reverse.map Char.ofUInt8 =
      (digits 62 width value.toNat).map symbol) ∧
    (store (List.replicate width (Key.alphabet.getD 0 0)) value).2.toNat =
      value.toNat / 62 ^ width := by
  induction width generalizing value with
  | zero => exact ⟨rfl, by simp [store]⟩
  | succ width ih =>
    rw [List.replicate_succ, store]
    by_cases none : value = 0
    · have zero := char_alphabet (show 0 < 62 by decide)
      subst none
      rw [if_pos rfl, UInt64.toNat_zero, Nat.zero_div, digits_zero, ← List.replicate_succ]
      simp only [List.reverse_replicate, List.map_replicate, zero, and_self]
    · obtain ⟨stored, left⟩ := ih (value / 62)
      have quotient : (value / 62).toNat = value.toNat / 62 := UInt64.toNat_div ..
      have digit : (value % 62).toNat = value.toNat % 62 := UInt64.toNat_mod ..
      have known := char_alphabet (Nat.mod_lt value.toNat (show 0 < 62 by decide))
      rw [quotient] at stored left
      rw [if_neg none]
      refine ⟨?_, ?_⟩
      · simp only [List.reverse_cons, List.map_append, List.map_singleton, stored, digits, digit,
          known]
      · simp only [left]
        rw [Nat.div_div_eq_div_mul, ← Nat.pow_succ']

/-- What is written is the low part of the number, and what is left is the rest of it. -/
theorem write_eq (width : Nat) (value : UInt64) :
    (write width value).1 = Numeral.radix62 width value.toNat ∧
      (write width value).2.toNat = value.toNat / 62 ^ width := by
  obtain ⟨stored, left⟩ := store_zeros width value
  exact ⟨congrArg String.ofList stored, left⟩

theorem write_of_lt {width : Nat} {value : UInt64} (fits : value.toNat < 62 ^ width) :
    write width value = (Numeral.radix62 width value.toNat, 0) := by
  obtain ⟨text, left⟩ := write_eq width value
  rw [Nat.div_eq_of_lt fits] at left
  exact Prod.ext text (UInt64.toNat_inj.mp left)

/-! ## Reading -/

/-- For every byte the digit that it stands for; 255 if there is none. -/
@[irreducible] def table : List UInt8 :=
  (List.range 62).foldl (fun filled d => filled.set (Key.alphabet.getD d 0).toNat (.ofNat d))
    (List.replicate 256 255)

def lookup (byte : UInt8) : Option UInt8 :=
  let digit := table.getD byte.toNat 255
  if digit = 255 then none else some digit

/-- The product of two words, if it is a word. -/
def mul (a b : UInt64) : Option UInt64 :=
  if a.toNat * b.toNat < UInt64.size then some (a * b) else none

def add (a b : UInt64) : Option UInt64 :=
  if a.toNat + b.toNat < UInt64.size then some (a + b) else none

def readDigits (index : Nat) (acc : UInt64) : List UInt8 → Except KeyFault UInt64
  | [] => .ok acc
  | byte :: rest =>
    match lookup byte with
    | none => .error (.badSymbol byte index)
    | some digit =>
      match (mul acc 62).bind (add · digit.toUInt64) with
      | none => .error .tooLarge
      | some acc => readDigits (index + 1) acc rest

def read (width : Nat) (text : List UInt8) : Except KeyFault UInt64 :=
  if text.length = width then readDigits 0 0 text else .error (.wrongLength width text.length)

theorem lookup_eq (byte : UInt8) :
    (lookup byte).map UInt8.toNat = Numeral.digitOfByte? byte := by
  have all : ∀ n < 256, (lookup (.ofNat n)).map UInt8.toNat =
      Numeral.digitOfByte? (.ofNat n) := by decide +kernel
  have known := all byte.toNat byte.toNat_lt
  rwa [UInt8.ofNat_toNat] at known

/-- Both checks together ask whether one more digit is too much. -/
theorem mul_add_eq (acc : UInt64) (digit : UInt64) :
    (mul acc 62).bind (add · digit) =
      if acc.toNat * 62 + digit.toNat < UInt64.size then
        some (.ofNat (acc.toNat * 62 + digit.toNat))
      else none := by
  have base : (62 : UInt64).toNat = 62 := rfl
  rw [mul, base]
  by_cases product : acc.toNat * 62 < UInt64.size
  · have value : (acc * 62).toNat = acc.toNat * 62 := by
      rw [UInt64.toNat_mul, base, Nat.mod_eq_of_lt product]
    rw [if_pos product, Option.bind_some, add, value]
    split
    · rename_i sum
      rw [Option.some_inj, ← UInt64.toNat_inj, UInt64.toNat_add, value,
        UInt64.toNat_ofNat_of_lt' sum, Nat.mod_eq_of_lt sum]
    · rfl
  · rw [if_neg product, Option.bind_none, if_neg (by omega)]

theorem readDigits_eq (index : Nat) (acc : UInt64) (text : List UInt8) :
    readDigits index acc text = (Key.readDigits index acc.toNat text).map UInt64.ofNat := by
  induction text generalizing index acc with
  | nil => simp [readDigits, Key.readDigits, Except.map]
  | cons byte rest ih =>
    have known := lookup_eq byte
    rw [readDigits, Key.readDigits, ← known]
    cases lookup byte with
    | none => rfl
    | some digit =>
      have word : digit.toUInt64.toNat = digit.toNat := UInt8.toNat_toUInt64 digit
      simp only [mul_add_eq, word, Option.map_some]
      by_cases fits : acc.toNat * 62 + digit.toNat < UInt64.size
      · simp only [if_pos fits, ih, UInt64.toNat_ofNat_of_lt' fits]
      · simp only [if_neg fits]
        rfl

theorem read_eq (width : Nat) (text : List UInt8) :
    read width text = (Key.readNumeral width text).map UInt64.ofNat := by
  rw [read, Key.readNumeral]
  split
  · exact readDigits_eq 0 0 text
  · rfl

/-! ## Width -/

/-- Multiplies a capacity until it reaches the limit, and counts how often; in words of 128 bits. -/
def widthFrom (limit capacity : Nat) (positive : 0 < capacity) (width : Nat) : Option Nat :=
  if capacity < limit then
    if capacity * 62 < 2 ^ 128 then
      widthFrom limit (capacity * 62) (Nat.mul_pos positive (by decide)) (width + 1)
    else none
  else some width
termination_by limit - capacity

def width (bits : Nat) : Option Nat :=
  if bits < 128 then widthFrom (2 ^ bits) 1 (by decide) 0 else none

/-- As long as the capacity is not enough, the count is too small. -/
theorem widthFrom_eq {bits : Nat} (few : bits ≤ 122) {count : Nat}
    (least : count ≤ widthForBits bits) (positive : 0 < 62 ^ count) :
    widthFrom (2 ^ bits) (62 ^ count) positive count = some (widthForBits bits) := by
  have enough := Numeral.widthForBits_le_iff bits count
  rw [widthFrom]
  by_cases short : 62 ^ count < 2 ^ bits
  · have more : count + 1 ≤ widthForBits bits := by omega
    have room : 62 ^ count * 62 < 2 ^ 128 := by
      have limit : 2 ^ bits ≤ 2 ^ 122 := Nat.pow_le_pow_right (by decide) few
      omega
    rw [if_pos short, if_pos room]
    exact widthFrom_eq few more (Nat.pow_pos (by decide))
  · rw [if_neg short, Option.some_inj]
    omega
termination_by widthForBits bits - count

theorem width_eq {bits : Nat} (few : bits ≤ 122) : width bits = some (widthForBits bits) := by
  rw [width, if_pos (by omega)]
  exact widthFrom_eq few (Nat.zero_le _) (by decide)

theorem isLeast_widthForBits (bits : Nat) :
    IsLeast {w | 2 ^ bits ≤ 62 ^ w} (widthForBits bits) := by
  constructor
  · exact (Numeral.widthForBits_le_iff ..).mp (Nat.le_refl _)
  · intro w enough
    exact (Numeral.widthForBits_le_iff ..).mpr enough

/-- A number below the base to the power of the width is written as its digits, most significant
first, with zeros before them, and nothing is left of it. Symbols are read as the number that they
write, unless this has more than 64 bits. The width that is found for some bits is the least that is
enough for them, so nothing is left of any stamp that is written as a key. On everything else, too,
the loops do what keys are made and read with. -/
theorem loops_compute_numerals :
    (List.range 62).map symbol =
      "0123456789ABCDEFGHIJKLMNOPQRSTUVWXYZabcdefghijklmnopqrstuvwxyz".toList ∧
    (∀ (w : Nat) (value : UInt64), value.toNat < 62 ^ w →
      let ds := Nat.digits 62 value.toNat
      ∃ text, write w value = (text, 0) ∧ text.length = w ∧
        text.toList = List.replicate (w - ds.length) '0' ++ ds.reverse.map symbol) ∧
    (∀ (w : Nat) (text : String), text.utf8ByteSize = w →
      (∀ b ∈ Key.bytes text, b ∈ Key.alphabet) →
        let n := Nat.ofDigits 62 ((Key.bytes text).map Key.alphabet.idxOf).reverse
        read w (Key.bytes text) = if n < 2 ^ 64 then .ok (.ofNat n) else .error .tooLarge) ∧
    (∀ bits ≤ 122, width bits = some (widthForBits bits) ∧
      IsLeast {w | 2 ^ bits ≤ 62 ^ w} (widthForBits bits)) ∧
    (∀ (l : Layout) (s : Stamp) (key : String), l.encodeKey s = .ok key →
      width l.totalBits = some l.keyWidth ∧ write l.keyWidth s.word = (key, 0)) ∧
    (∀ (w : Nat) (value : UInt64), (write w value).1 = Numeral.radix62 w value.toNat) ∧
    ∀ (w : Nat) (text : List UInt8), read w text = (Key.readNumeral w text).map .ofNat := by
  refine ⟨by decide, ?_, ?_, ?_, ?_, fun w value => (write_eq w value).1, read_eq⟩
  · intro w value fits ds
    have zero : symbol 0 = '0' := rfl
    refine ⟨_, write_of_lt fits, ?_, ?_⟩
    · rw [Numeral.radix62, String.length_ofList, List.length_map, Numeral.length_digits]
    · rw [Numeral.radix62, String.toList_ofList, Numeral.digits_eq_replicate_append fits,
        List.map_append, List.map_replicate, zero]
  · rintro w text rfl symbols n
    have value : Key.numeral (Key.bytes text) = n := Numeral.value_eq_ofDigits _
    have answer := Key.readNumeral_of_symbols symbols
    rw [Key.length_bytes, value] at answer
    rw [read_eq, answer]
    by_cases fits : n < UInt64.size
    · rw [if_pos fits]
      exact (if_pos fits).symm
    · rw [if_neg fits]
      exact (if_neg fits).symm
  · intro bits few
    exact ⟨width_eq few, isLeast_widthForBits bits⟩
  · intro l s key coded
    obtain ⟨valid, rfl⟩ := (l.encodeKey_eq_ok_iff s key).mp coded
    have few := l.bits_le
    refine ⟨width_eq ?_, write_of_lt (Layout.lt_pow_keyWidth_of_isValid valid)⟩
    rw [Layout.totalBits, Layout.valueBits]
    omega

/-- The largest number of 64 bits is written with eleven symbols, and the next one is not read. -/
theorem loops_compute_numerals_at_largest :
    write 11 0xFFFFFFFFFFFFFFFF = ("LygHa16AHYF", 0) ∧
      read 11 (Key.bytes "LygHa16AHYG") = .error .tooLarge ∧
      width 64 = some 11 ∧ write 11 0x7FFFFFFFFFFFFFFF = ("AzL8n0Y58m7", 0) := by
  obtain ⟨_, writes, reads, widths, keys, texts, _⟩ := loops_compute_numerals
  obtain ⟨text, written, _⟩ := writes 11 0xFFFFFFFFFFFFFFFF (by decide)
  have last : (write 11 0xFFFFFFFFFFFFFFFF).1 = "LygHa16AHYF" := texts 11 0xFFFFFFFFFFFFFFFF
  have next := (reads 11 "LygHa16AHYG" rfl (by decide +kernel)).trans (if_neg (by decide +kernel))
  obtain ⟨_, stamp⟩ := keys .standard ⟨0x7FFFFFFFFFFFFFFF⟩ "AzL8n0Y58m7" rfl
  refine ⟨Prod.ext last ?_, next, (widths 64 (by decide)).1, stamp⟩
  rw [written]

end Radix
end Tickstamp
