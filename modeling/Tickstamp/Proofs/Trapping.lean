import Tickstamp.Proofs.Coding
import Tickstamp.Proofs.Issue.Image

/-!
# Arithmetic that never traps

The widths of a layout are kept as bytes, and sums of bytes, differences and
shifts of words are right only within bounds. Here the arithmetic of layouts is
written once more with operations that stop where a bound is passed. On every
layout none of them stops, whatever the words are, and the results are those of
the layout. Progress is packed only within the layout; a shift that loses bits
counts as a passed bound.
-/

namespace Tickstamp
namespace Trapping

/-- The sum of two bytes, if it is a byte. -/
def addBytes (a b : UInt8) : Option UInt8 :=
  if a.toNat + b.toNat < 256 then some (a + b) else none

def subBytes (a b : UInt8) : Option UInt8 :=
  if b ≤ a then some (a - b) else none

def sub (a b : UInt64) : Option UInt64 :=
  if b ≤ a then some (a - b) else none

/-- A shift to the left by fewer than 64 places that loses no bit. -/
def shiftLeft (w : UInt64) (places : UInt8) : Option UInt64 :=
  if places.toNat < 64 ∧ w.toNat * 2 ^ places.toNat < 2 ^ 64 then some (w <<< places.toUInt64)
  else none

/-- A shift to the right by fewer than 64 places. -/
def shiftRight (w : UInt64) (places : UInt8) : Option UInt64 :=
  if places.toNat < 64 then some (w >>> places.toUInt64) else none

def lowMask (bits : UInt8) : Option UInt64 := do
  sub (← shiftLeft 1 bits) 1

/-- The widths of a layout as they are kept. -/
structure Widths where
  timestamp : UInt8
  machine : UInt8
  sequence : UInt8

namespace Widths

def totalBits (w : Widths) : Option UInt8 := do
  addBytes (← addBytes (← addBytes 1 w.timestamp) w.machine) w.sequence

def maxTimestamp (w : Widths) : Option UInt64 := lowMask w.timestamp

def maxMachine (w : Widths) : Option UInt64 := lowMask w.machine

def maxSequence (w : Widths) : Option UInt64 := lowMask w.sequence

def machineShift (w : Widths) : UInt8 := w.sequence

def timestampShift (w : Widths) : Option UInt8 := addBytes w.sequence w.machine

/-- Fields are shifted only after they have been checked. -/
def encode (w : Widths) (f : Fields) : Option (Except Fault Stamp) := do
  let maxTimestamp ← w.maxTimestamp
  let maxMachine ← w.maxMachine
  let maxSequence ← w.maxSequence
  let checked : Except Fault Unit := do
    Layout.check .timestamp f.timestamp maxTimestamp
    Layout.check .machine f.machine maxMachine
    Layout.check .sequence f.sequence maxSequence
  match checked with
  | .error fault => return .error fault
  | .ok () =>
    let timestamp ← shiftLeft f.timestamp (← w.timestampShift)
    let machine ← shiftLeft f.machine w.machineShift
    return .ok ⟨timestamp ||| machine ||| f.sequence⟩

def decode (w : Widths) (s : Stamp) : Option Fields := do
  let timestamp ← shiftRight s.word (← w.timestampShift)
  let machine ← shiftRight s.word w.machineShift
  return ⟨timestamp &&& (← w.maxTimestamp), machine &&& (← w.maxMachine),
    s.word &&& (← w.maxSequence)⟩

def isValid (w : Widths) (s : Stamp) : Option Bool := do
  return (← shiftRight s.word (← subBytes (← w.totalBits) 1)) == 0

def validate (w : Widths) (s : Stamp) : Option (Except Fault Stamp) := do
  if ← w.isValid s then return .ok s
  else
    let timestamp ← shiftRight s.word (← w.timestampShift)
    return .error (.fieldTooLarge .timestamp timestamp (← w.maxTimestamp))

def halfRange (w : Widths) : Option CarryOver := do
  return .upTo (← sub (← shiftLeft 1 (← subBytes w.sequence 1)) 1)

/-- A fresh progress is packed like all others, from a flag and two numbers that are zero. -/
def pack (w : Widths) (p : Progress) : Option UInt64 := do
  let (flag, timestamp, sequence) : UInt64 × UInt64 × UInt64 := match p with
    | .fresh => (0, 0, 0)
    | .issued timestamp sequence => (1, timestamp, sequence)
  return (← shiftLeft flag 63) ||| (← shiftLeft timestamp w.sequence) ||| sequence

/-- The numbers are taken out of the word before the flag decides whether they mean anything. -/
def unpack (w : Widths) (word : UInt64) : Option Progress := do
  let body := word &&& ~~~(← shiftLeft 1 63)
  let flag ← shiftRight word 63
  let timestamp ← shiftRight body w.sequence
  let sequence := body &&& (← lowMask w.sequence)
  return if flag = 1 then .issued timestamp sequence else .fresh

end Widths

theorem toNat_ofNat {n : Nat} (small : n < 256) : (UInt8.ofNat n).toNat = n := by
  rw [UInt8.toNat_ofNat']
  omega

theorem toUInt64_ofNat {n : Nat} (small : n < 256) : (UInt8.ofNat n).toUInt64 = UInt64.ofNat n := by
  apply UInt64.toNat_inj.mp
  rw [UInt8.toNat_toUInt64, toNat_ofNat small, UInt64.toNat_ofNat']
  omega

theorem addBytes_ofNat {a b : Nat} (small : a + b < 256) :
    addBytes (.ofNat a) (.ofNat b) = some (.ofNat (a + b)) := by
  have first : a < 256 := by omega
  have second : b < 256 := by omega
  rw [addBytes, toNat_ofNat first, toNat_ofNat second, if_pos small, UInt8.ofNat_add]

theorem subBytes_ofNat {a b : Nat} (le : b ≤ a) (small : a < 256) :
    subBytes (.ofNat a) (.ofNat b) = some (.ofNat (a - b)) := by
  have second : b < 256 := by omega
  have ordered : UInt8.ofNat b ≤ UInt8.ofNat a := by
    rw [UInt8.le_iff_toNat_le, toNat_ofNat small, toNat_ofNat second]
    exact le
  rw [subBytes, if_pos ordered, UInt8.ofNat_sub le]

theorem sub_of_le {a b : UInt64} (le : b ≤ a) : sub a b = some (a - b) :=
  if_pos le

theorem shiftLeft_ofNat {places : Nat} (few : places < 64) {w : UInt64}
    (fits : w.toNat * 2 ^ places < 2 ^ 64) :
    shiftLeft w (.ofNat places) = some (w <<< UInt64.ofNat places) := by
  have small : places < 256 := by omega
  rw [shiftLeft, toNat_ofNat small, toUInt64_ofNat small, if_pos ⟨few, fits⟩]

theorem shiftRight_ofNat {places : Nat} (few : places < 64) (w : UInt64) :
    shiftRight w (.ofNat places) = some (w >>> UInt64.ofNat places) := by
  have small : places < 256 := by omega
  rw [shiftRight, toNat_ofNat small, toUInt64_ofNat small, if_pos few]

theorem lowMask_ofNat {bits : Nat} (few : bits < 64) :
    lowMask (.ofNat bits) = some (Tickstamp.lowMask bits) := by
  have fits : (1 : UInt64).toNat * 2 ^ bits < 2 ^ 64 := by
    rw [UInt64.toNat_one, Nat.one_mul]
    exact Nat.pow_lt_pow_right (by decide) few
  have shifted := toNat_shiftLeft few fits
  have positive : (1 : UInt64) ≤ 1 <<< UInt64.ofNat bits := by
    rw [UInt64.le_iff_toNat_le, shifted, UInt64.toNat_one, Nat.one_mul]
    exact Nat.two_pow_pos bits
  rw [lowMask, shiftLeft_ofNat few fits]
  exact sub_of_le positive

end Trapping

open Trapping

namespace Layout

def widths (l : Layout) : Widths :=
  ⟨.ofNat l.timestampBits, .ofNat l.machineBits, .ofNat l.sequenceBits⟩

theorem timestampShift_lt (l : Layout) : l.timestampShift < 64 := by
  have := l.bits_le
  rw [timestampShift]
  omega

theorem widths_totalBits (l : Layout) : l.widths.totalBits = some (.ofNat l.totalBits) := by
  have bits := l.bits_le
  have first : addBytes 1 (.ofNat l.timestampBits) = some (.ofNat (1 + l.timestampBits)) :=
    addBytes_ofNat (a := 1) (by omega)
  have second := addBytes_ofNat (a := 1 + l.timestampBits) (b := l.machineBits) (by omega)
  have third := addBytes_ofNat (a := 1 + l.timestampBits + l.machineBits) (b := l.sequenceBits)
    (by omega)
  have total : l.totalBits = 1 + l.timestampBits + l.machineBits + l.sequenceBits := by
    rw [totalBits, valueBits]
    omega
  simp only [Widths.totalBits, widths, first, second, third, total, Option.bind_eq_bind,
    Option.bind_some]

theorem widths_timestampShift (l : Layout) :
    l.widths.timestampShift = some (.ofNat l.timestampShift) := by
  have bits := l.bits_le
  exact addBytes_ofNat (by omega)

theorem widths_maxTimestamp (l : Layout) : l.widths.maxTimestamp = some l.maxTimestamp :=
  lowMask_ofNat l.timestampBits_lt

theorem widths_maxMachine (l : Layout) : l.widths.maxMachine = some l.maxMachine :=
  lowMask_ofNat l.machineBits_lt

theorem widths_maxSequence (l : Layout) : l.widths.maxSequence = some l.maxSequence :=
  lowMask_ofNat l.sequenceBits_lt

/-- Encoding packs what the three checks let through. -/
theorem encode_eq_map (l : Layout) (f : Fields) :
    l.encode f = (do
      check .timestamp f.timestamp l.maxTimestamp
      check .machine f.machine l.maxMachine
      check .sequence f.sequence l.maxSequence : Except Fault Unit).map fun _ => l.pack f := by
  rw [encode]
  cases check .timestamp f.timestamp l.maxTimestamp with
  | error fault => rfl
  | ok _ =>
    cases check .machine f.machine l.maxMachine with
    | error fault => rfl
    | ok _ => cases check .sequence f.sequence l.maxSequence <;> rfl

/-- Fields that fit are shifted without losing a bit. -/
theorem shifts_fit {l : Layout} {f : Fields} (fits : l.Fits f) :
    f.timestamp.toNat * 2 ^ l.timestampShift < 2 ^ 64 ∧
      f.machine.toNat * 2 ^ l.machineShift < 2 ^ 64 := by
  have below : l.value f < 2 ^ 64 :=
    Nat.lt_trans (Nat.lt_of_lt_of_le fits.value_lt l.valueBits_pow_le) (by decide)
  rw [value, upper_mul] at below
  omega

theorem widths_encode (l : Layout) (f : Fields) : l.widths.encode f = some (l.encode f) := by
  have same := l.encode_eq_map f
  simp only [Widths.encode, widths_maxTimestamp, widths_maxMachine, widths_maxSequence,
    Option.bind_eq_bind, Option.bind_some]
  generalize checked : (do
      check .timestamp f.timestamp l.maxTimestamp
      check .machine f.machine l.maxMachine
      check .sequence f.sequence l.maxSequence : Except Fault Unit) = answer at same ⊢
  cases answer with
  | error fault => rw [same]; rfl
  | ok _ =>
    have fits : l.Fits f := ((l.encode_eq_ok_iff f _).mp same).1
    obtain ⟨timestampFits, machineFits⟩ := shifts_fit fits
    have timestamp := shiftLeft_ofNat l.timestampShift_lt timestampFits
    have machine : shiftLeft f.machine l.widths.machineShift = _ :=
      shiftLeft_ofNat l.sequenceBits_lt machineFits
    simp only [widths_timestampShift, Option.bind_some, timestamp, machine]
    rw [same]
    rfl

theorem widths_decode (l : Layout) (s : Stamp) : l.widths.decode s = some (l.decode s) := by
  have timestamp := shiftRight_ofNat l.timestampShift_lt s.word
  have machine : shiftRight s.word l.widths.machineShift = _ :=
    shiftRight_ofNat l.sequenceBits_lt s.word
  simp only [Widths.decode, widths_timestampShift, widths_maxTimestamp, widths_maxMachine,
    widths_maxSequence, timestamp, machine, Option.bind_eq_bind, Option.bind_some]
  rfl

theorem widths_isValid (l : Layout) (s : Stamp) : l.widths.isValid s = some (l.isValid s) := by
  have bits := l.bits_le
  have valueBits : subBytes (.ofNat l.totalBits) 1 = some (.ofNat l.valueBits) := by
    have difference := subBytes_ofNat (a := l.totalBits) (b := 1) (by rw [totalBits]; omega)
      (by rw [totalBits, Layout.valueBits]; omega)
    rw [totalBits, Nat.add_sub_cancel_left] at difference
    exact difference
  have shifted := shiftRight_ofNat l.valueBits_lt s.word
  simp only [Widths.isValid, widths_totalBits, valueBits, shifted, Option.bind_eq_bind,
    Option.bind_some]
  rfl

theorem widths_validate (l : Layout) (s : Stamp) : l.widths.validate s = some (l.validate s) := by
  have timestamp := shiftRight_ofNat l.timestampShift_lt s.word
  simp only [Widths.validate, widths_isValid, widths_timestampShift, widths_maxTimestamp, timestamp,
    Option.bind_eq_bind, Option.bind_some]
  rw [validate]
  split <;> rfl

theorem widths_halfRange (l : Layout) : l.widths.halfRange = some (CarryOver.halfOf l) := by
  have positive := l.sequence_pos
  have few := l.sequenceBits_lt
  have bits : subBytes l.widths.sequence 1 = some (.ofNat (l.sequenceBits - 1)) :=
    subBytes_ofNat (b := 1) (by omega) (by omega)
  have mask : (do sub (← shiftLeft 1 (.ofNat (l.sequenceBits - 1))) 1) =
      some (Tickstamp.lowMask (l.sequenceBits - 1)) :=
    lowMask_ofNat (by omega)
  simp only [Widths.halfRange, bits, Option.bind_eq_bind, Option.bind_some] at mask ⊢
  rw [← Option.bind_assoc, mask]
  rfl

/-- Whatever is within the layout is packed without losing a bit. -/
theorem widths_pack {l : Layout} {p : Progress} (within : p.Within l) :
    l.widths.pack p = some (p.pack l.sequenceBits) := by
  cases p with
  | fresh =>
    have flag : shiftLeft 0 63 = some 0 := by decide
    have timestamp : shiftLeft 0 l.widths.sequence = some 0 := by
      have shifted := shiftLeft_ofNat l.sequenceBits_lt (w := 0) (by simp)
      rw [UInt64.zero_shiftLeft] at shifted
      exact shifted
    simp only [Widths.pack, flag, timestamp, Option.bind_eq_bind, Option.bind_some]
    rfl
  | issued timestamp sequence =>
    have below := image_lt within
    have flag : shiftLeft 1 63 = some Progress.startedFlag := by decide
    have shifted : shiftLeft timestamp l.widths.sequence = _ :=
      shiftLeft_ofNat l.sequenceBits_lt (by omega)
    simp only [Widths.pack, flag, shifted, Option.bind_eq_bind, Option.bind_some]
    rfl

theorem widths_unpack (l : Layout) (word : UInt64) :
    l.widths.unpack word = some (.unpack word l.sequenceBits) := by
  have flag : shiftLeft 1 63 = some Progress.startedFlag := by decide
  have top : shiftRight word 63 = some (word >>> 63) := shiftRight_ofNat (by decide) word
  have timestamp : shiftRight (word &&& ~~~Progress.startedFlag) l.widths.sequence = _ :=
    shiftRight_ofNat l.sequenceBits_lt _
  have mask : Trapping.lowMask l.widths.sequence = _ := lowMask_ofNat l.sequenceBits_lt
  simp only [Widths.unpack, flag, top, timestamp, mask, Option.bind_eq_bind, Option.bind_some]
  rfl

/-- A stamp is refused for a timestamp that is really too large. -/
theorem lt_of_validate {l : Layout} {s : Stamp} {fault : Fault}
    (refused : l.validate s = .error fault) :
    ∃ value, fault = .fieldTooLarge .timestamp value l.maxTimestamp ∧ l.maxTimestamp < value := by
  by_cases valid : l.isValid s = true
  · rw [validate, if_pos valid] at refused
    cases refused
  · rw [validate, if_neg valid] at refused
    cases refused
    refine ⟨_, rfl, ?_⟩
    rw [← UInt64.not_le, l.le_maxTimestamp_iff, toNat_shiftRight l.timestampShift_lt]
    rw [isValid_iff, valueBits, Nat.add_assoc, Nat.pow_add] at valid
    intro small
    have product := (Nat.div_lt_iff_lt_mul (Nat.two_pow_pos _)).mp small
    rw [timestampShift, Nat.add_comm l.sequenceBits] at product
    exact valid product

/-- On this layout no arithmetic traps, and all of it computes what the layout computes. -/
structure Untrapped (l : Layout) : Prop where
  totalBits : l.widths.totalBits.map UInt8.toNat = some l.totalBits
  maxTimestamp : l.widths.maxTimestamp = some l.maxTimestamp
  maxMachine : l.widths.maxMachine = some l.maxMachine
  maxSequence : l.widths.maxSequence = some l.maxSequence
  timestampShift : l.widths.timestampShift.map UInt8.toNat = some l.timestampShift
  machineShift : l.widths.machineShift.toNat = l.machineShift
  shifts_lt : l.timestampShift < 64 ∧ l.machineShift < 64
  encode : ∀ f, l.widths.encode f = some (l.encode f)
  decode : ∀ s, l.widths.decode s = some (l.decode s)
  isValid : ∀ s, l.widths.isValid s = some (l.isValid s)
  validate : ∀ s, l.widths.validate s = some (l.validate s)
  /-- What is reported as too large is larger than what is reported as the maximum. -/
  exceeds : ∀ s fault, l.validate s = .error fault →
    ∃ value, fault = .fieldTooLarge .timestamp value l.maxTimestamp ∧ l.maxTimestamp < value
  halfRange : l.widths.halfRange = some (CarryOver.halfOf l)
  pack : ∀ p, p.Within l → l.widths.pack p = some (p.pack l.sequenceBits)
  unpack : ∀ word, l.widths.unpack word = some (.unpack word l.sequenceBits)

theorem untrapped (l : Layout) : l.Untrapped where
  totalBits := by
    have bits := l.bits_le
    rw [widths_totalBits, Option.map_some, toNat_ofNat (by rw [Layout.totalBits, valueBits]; omega)]
  maxTimestamp := l.widths_maxTimestamp
  maxMachine := l.widths_maxMachine
  maxSequence := l.widths_maxSequence
  timestampShift := by
    have few := l.timestampShift_lt
    rw [widths_timestampShift, Option.map_some, toNat_ofNat (by omega)]
  machineShift := by
    have few := l.sequenceBits_lt
    exact toNat_ofNat (by omega)
  shifts_lt := ⟨l.timestampShift_lt, l.sequenceBits_lt⟩
  encode := l.widths_encode
  decode := l.widths_decode
  isValid := l.widths_isValid
  validate := l.widths_validate
  exceeds := fun _ _ => lt_of_validate
  halfRange := l.widths_halfRange
  pack := fun _ => widths_pack
  unpack := l.widths_unpack

end Layout
end Tickstamp
