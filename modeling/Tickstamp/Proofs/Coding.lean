import Mathlib.Logic.ExistsUnique
import Tickstamp.Proofs.Packing

/-!
# Fields and valid stamps correspond

The stamps of a layout are the numbers below two to the sum of its widths, each
of which is the packing of exactly one choice of fields. Decoding is total: of
a word with more bits it keeps the low ones. The sign bit is never among them,
so a stamp read as a signed number keeps its value.
-/

namespace Tickstamp

theorem Stamp.ext_toNat {a b : Stamp} (h : a.word.toNat = b.word.toNat) : a = b := by
  cases a
  cases b
  exact congrArg Stamp.mk (UInt64.toNat_inj.mp h)

/-- A word without the sign bit has the same value as a signed number. -/
theorem Stamp.signed_of_lt {s : Stamp} (h : s.word.toNat < 2 ^ 63) :
    s.signed = (s.word.toNat : Int) := by
  have small : 2 * s.word.toBitVec.toNat < 2 ^ 64 := by
    have same : s.word.toBitVec.toNat = s.word.toNat := rfl
    omega
  exact BitVec.toInt_eq_toNat_of_lt small

/-- The last digits of a number of two radices: the remainder by the product. -/
theorem mod_mul_eq (n low high : Nat) : n % (low * high) = n / low % high * low + n % low := by
  rw [Nat.mod_mul, Nat.add_comm, Nat.mul_comm low]

namespace Layout

/-- The gate lets exactly the legal widths through, and keeps them. -/
theorem ofBits_eq_ok_iff (timestamp machine sequence : Nat) (l : Layout) :
    ofBits timestamp machine sequence = .ok l ↔
      l.timestampBits = timestamp ∧ l.machineBits = machine ∧ l.sequenceBits = sequence := by
  constructor
  · intro accepted
    simp only [ofBits] at accepted
    split at accepted
    · split at accepted
      · cases accepted
        exact ⟨rfl, rfl, rfl⟩
      · cases accepted
    · cases accepted
  · rintro ⟨rfl, rfl, rfl⟩
    have positive : 0 < l.timestampBits ∧ 0 < l.machineBits ∧ 0 < l.sequenceBits :=
      ⟨l.timestamp_pos, l.machine_pos, l.sequence_pos⟩
    simp [ofBits, positive, l.bits_le]

theorem ofBits_bits (l : Layout) :
    ofBits l.timestampBits l.machineBits l.sequenceBits = .ok l :=
  (ofBits_eq_ok_iff ..).mpr ⟨rfl, rfl, rfl⟩

theorem fits_iff (l : Layout) (f : Fields) :
    l.Fits f ↔ f.timestamp.toNat < 2 ^ l.timestampBits ∧ f.machine.toNat < 2 ^ l.machineBits ∧
      f.sequence.toNat < 2 ^ l.sequenceBits := by
  rw [← le_maxTimestamp_iff, ← le_maxMachine_iff, ← le_maxSequence_iff]
  constructor
  · intro fits
    exact ⟨fits.timestamp, fits.machine, fits.sequence⟩
  · rintro ⟨timestamp, machine, sequence⟩
    exact ⟨timestamp, machine, sequence⟩

theorem isValid_iff (l : Layout) (s : Stamp) :
    l.isValid s = true ↔ s.word.toNat < 2 ^ l.valueBits := by
  have high := toNat_shiftRight l.valueBits_lt s.word
  rw [isValid, beq_iff_eq, ← UInt64.toNat_inj, high, UInt64.toNat_zero,
    Nat.div_eq_zero_iff_lt (Nat.two_pow_pos _)]

theorem validate_eq_ok_iff (l : Layout) (s passed : Stamp) :
    l.validate s = .ok passed ↔ passed = s ∧ l.isValid s = true := by
  by_cases valid : l.isValid s = true
  · simp [validate, valid, eq_comm]
  · simp [validate, valid]

theorem decode_fits (l : Layout) (s : Stamp) : l.Fits (l.decode s) := by
  rw [fits_iff, decode_timestamp_toNat, decode_machine_toNat, decode_sequence_toNat]
  exact ⟨Nat.mod_lt _ (Nat.two_pow_pos _), Nat.mod_lt _ (Nat.two_pow_pos _),
    Nat.mod_lt _ (Nat.two_pow_pos _)⟩

/-- The fields of a word are the digits of its low part. -/
theorem value_decode (l : Layout) (s : Stamp) :
    l.value (l.decode s) = s.word.toNat % 2 ^ l.valueBits := by
  have widths :
      2 ^ l.valueBits = 2 ^ l.sequenceBits * (2 ^ l.machineBits * 2 ^ l.timestampBits) := by
    rw [← Nat.pow_add, ← Nat.pow_add, valueBits]
    congr 1
    omega
  have shift : s.word.toNat / 2 ^ l.timestampShift =
      s.word.toNat / 2 ^ l.sequenceBits / 2 ^ l.machineBits := by
    rw [timestampShift, Nat.pow_add, Nat.div_div_eq_div_mul]
  have upper : s.word.toNat / 2 ^ l.sequenceBits % (2 ^ l.machineBits * 2 ^ l.timestampBits) =
      s.word.toNat / 2 ^ l.timestampShift % 2 ^ l.timestampBits * 2 ^ l.machineBits +
        s.word.toNat / 2 ^ l.sequenceBits % 2 ^ l.machineBits := by
    rw [mod_mul_eq, shift]
  rw [value, decode_timestamp_toNat, decode_machine_toNat, decode_sequence_toNat, machineShift,
    ← upper, widths, ← mod_mul_eq]

/-- Encoding what was read from a word keeps the low part of the word. -/
theorem encode_decode (l : Layout) (s : Stamp) :
    ∃ low, l.encode (l.decode s) = .ok low ∧
      low.word.toNat = s.word.toNat % 2 ^ l.valueBits := by
  refine ⟨_, (l.encode_eq_ok_iff _ _).mpr ⟨l.decode_fits s, rfl⟩, ?_⟩
  rw [pack_toNat (l.decode_fits s), value_decode]

theorem encode_decode_of_isValid {l : Layout} {s : Stamp} (valid : l.isValid s = true) :
    l.encode (l.decode s) = .ok s := by
  obtain ⟨low, coded, value⟩ := l.encode_decode s
  rw [Nat.mod_eq_of_lt ((l.isValid_iff s).mp valid)] at value
  rw [coded, Stamp.ext_toNat value]

theorem isValid_of_encode {l : Layout} {f : Fields} {s : Stamp} (coded : l.encode f = .ok s) :
    l.isValid s = true := by
  obtain ⟨fits, rfl⟩ := (l.encode_eq_ok_iff f s).mp coded
  rw [isValid_iff, pack_toNat fits]
  exact fits.value_lt

theorem decode_of_encode {l : Layout} {f : Fields} {s : Stamp} (coded : l.encode f = .ok s) :
    l.decode s = f := by
  obtain ⟨fits, rfl⟩ := (l.encode_eq_ok_iff f s).mp coded
  exact decode_pack fits

theorem signed_of_isValid {l : Layout} {s : Stamp} (valid : l.isValid s = true) :
    s.signed = (s.word.toNat : Int) :=
  Stamp.signed_of_lt (Nat.lt_of_lt_of_le ((l.isValid_iff s).mp valid) l.valueBits_pow_le)

/-- Whatever widths the gate lets through, encoding is a bijection from the fields that fit onto
the numbers below two to the sum of the widths, which are the stamps that count as valid, and
decoding is its inverse. Decoding any other word and encoding the fields again keeps the low
bits. No stamp uses the sign bit, so as signed numbers stamps are not negative and keep their
order. -/
theorem encode_bijective {timestamp machine sequence : Nat} {l : Layout}
    (accepted : ofBits timestamp machine sequence = .ok l) :
    let total := timestamp + machine + sequence
    (∀ f, (∃ s, l.encode f = .ok s) ↔
      f.timestamp.toNat < 2 ^ timestamp ∧ f.machine.toNat < 2 ^ machine ∧
        f.sequence.toNat < 2 ^ sequence) ∧
    (∀ s : Stamp, s.word.toNat < 2 ^ total ↔ ∃! f, l.encode f = .ok s) ∧
    (∀ s : Stamp, l.isValid s = true ↔ s.word.toNat < 2 ^ total) ∧
    (∀ s passed : Stamp, l.validate s = .ok passed ↔ passed = s ∧ s.word.toNat < 2 ^ total) ∧
    (∀ f s, l.encode f = .ok s → l.decode s = f) ∧
    (∀ s, l.isValid s = true → l.encode (l.decode s) = .ok s) ∧
    (∀ s : Stamp, ∃ low, l.encode (l.decode s) = .ok low ∧
      low.word.toNat = s.word.toNat % 2 ^ total) ∧
    (∀ f s, l.encode f = .ok s →
      s.word.toNat < 2 ^ 63 ∧ s.signed = (s.word.toNat : Int) ∧ 0 ≤ s.signed) ∧
    ∀ f f' s s', l.encode f = .ok s → l.encode f' = .ok s' → (s < s' ↔ s.signed < s'.signed) := by
  obtain ⟨rfl, rfl, rfl⟩ := (ofBits_eq_ok_iff ..).mp accepted
  refine ⟨?_, ?_, l.isValid_iff, ?_, ?_, ?_, l.encode_decode, ?_, ?_⟩
  · intro f
    rw [← fits_iff]
    constructor
    · rintro ⟨s, coded⟩
      exact ((l.encode_eq_ok_iff f s).mp coded).1
    · intro fits
      exact ⟨_, (l.encode_eq_ok_iff f _).mpr ⟨fits, rfl⟩⟩
  · intro s
    constructor
    · intro below
      refine ⟨l.decode s, encode_decode_of_isValid ((l.isValid_iff s).mpr below), ?_⟩
      intro f coded
      exact (decode_of_encode coded).symm
    · rintro ⟨f, coded, _⟩
      exact (l.isValid_iff s).mp (isValid_of_encode coded)
  · intro s passed
    rw [validate_eq_ok_iff, isValid_iff]
    rfl
  · intro f s coded
    exact decode_of_encode coded
  · intro s valid
    exact encode_decode_of_isValid valid
  · intro f s coded
    have valid := isValid_of_encode coded
    have signed := signed_of_isValid valid
    refine ⟨Nat.lt_of_lt_of_le ((l.isValid_iff s).mp valid) l.valueBits_pow_le, signed, ?_⟩
    omega
  · intro f f' s s' coded coded'
    rw [signed_of_isValid (isValid_of_encode coded), signed_of_isValid (isValid_of_encode coded'),
      Int.ofNat_lt]
    exact UInt64.lt_iff_toNat_lt

/-- The widest timestamp beside two fields of one bit: the largest stamp is the largest signed
number, and the word of all ones is cut down to it. -/
theorem encode_bijective_widest :
    ∃ l, ofBits 61 1 1 = .ok l ∧
      l.encode ⟨0x1FFFFFFFFFFFFFFF, 1, 1⟩ = .ok ⟨0x7FFFFFFFFFFFFFFF⟩ ∧
      l.decode ⟨0x7FFFFFFFFFFFFFFF⟩ = ⟨0x1FFFFFFFFFFFFFFF, 1, 1⟩ ∧
      (⟨0x7FFFFFFFFFFFFFFF⟩ : Stamp).signed = 0x7FFFFFFFFFFFFFFF ∧
      l.isValid ⟨0xFFFFFFFFFFFFFFFF⟩ = false ∧
      ∃ low, l.encode (l.decode ⟨0xFFFFFFFFFFFFFFFF⟩) = .ok low ∧
        low.word.toNat = 0xFFFFFFFFFFFFFFFF % 2 ^ 63 := by
  have accepted : ofBits 61 1 1 = .ok _ := rfl
  obtain ⟨_, _, valid, _, inverse, _, cut, signed, _⟩ := encode_bijective accepted
  have outside := mt (valid ⟨0xFFFFFFFFFFFFFFFF⟩).mp (by decide)
  exact ⟨_, accepted, rfl, inverse _ _ rfl, (signed ⟨0x1FFFFFFFFFFFFFFF, 1, 1⟩ _ rfl).2.1,
    Bool.eq_false_iff.mpr outside, cut _⟩

end Layout
end Tickstamp
