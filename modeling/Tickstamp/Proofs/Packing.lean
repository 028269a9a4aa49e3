import Mathlib.Algebra.Group.Nat.Defs
import Tickstamp.Layout

/-!
# The arithmetic of packed words

Shifts, masks and unions of words are read as products, remainders and sums of
natural numbers. With fields that fit, a packed word is a numeral of mixed
radix: nothing is shifted out, no field spills into the next, and unpacking
returns the fields. Fields that do not fit are never packed by `Layout.encode`.
-/

namespace Tickstamp

theorem toNat_shiftRight {bits : Nat} (h : bits < 64) (w : UInt64) :
    (w >>> UInt64.ofNat bits).toNat = w.toNat / 2 ^ bits := by
  have amount : (UInt64.ofNat bits).toNat % 64 = bits := by
    rw [UInt64.toNat_ofNat']
    omega
  rw [UInt64.toNat_shiftRight, amount, Nat.shiftRight_eq_div_pow]

/-- A shift to the left is a product as long as the product is a word. -/
theorem toNat_shiftLeft {bits : Nat} (h : bits < 64) {w : UInt64}
    (fits : w.toNat * 2 ^ bits < 2 ^ 64) :
    (w <<< UInt64.ofNat bits).toNat = w.toNat * 2 ^ bits := by
  have amount : (UInt64.ofNat bits).toNat % 64 = bits := by
    rw [UInt64.toNat_ofNat']
    omega
  rw [UInt64.toNat_shiftLeft, amount, Nat.shiftLeft_eq, Nat.mod_eq_of_lt fits]

theorem toNat_lowMask {bits : Nat} (h : bits < 64) :
    (lowMask bits).toNat = 2 ^ bits - 1 := by
  have positive : 0 < 2 ^ bits := Nat.two_pow_pos bits
  have small : (1 : UInt64).toNat * 2 ^ bits < 2 ^ 64 := by
    rw [UInt64.toNat_one, Nat.one_mul]
    exact Nat.pow_lt_pow_right (by decide) h
  have shifted := toNat_shiftLeft h small
  rw [UInt64.toNat_one, Nat.one_mul] at shifted
  rw [lowMask, UInt64.toNat_sub_of_le _ _ (UInt64.le_iff_toNat_le.mpr (by
    rw [shifted, UInt64.toNat_one]; exact positive)), shifted, UInt64.toNat_one]

theorem le_lowMask_iff {bits : Nat} (h : bits < 64) (w : UInt64) :
    w ≤ lowMask bits ↔ w.toNat < 2 ^ bits := by
  have positive : 0 < 2 ^ bits := Nat.two_pow_pos bits
  rw [UInt64.le_iff_toNat_le, toNat_lowMask h]
  omega

theorem toNat_and_lowMask {bits : Nat} (h : bits < 64) (w : UInt64) :
    (w &&& lowMask bits).toNat = w.toNat % 2 ^ bits := by
  rw [UInt64.toNat_and, toNat_lowMask h, Nat.and_two_pow_sub_one_eq_mod]

theorem toNat_add_one_of_lt {a b : UInt64} (less : a < b) : (a + 1).toNat = a.toNat + 1 := by
  have bound := b.toNat_lt
  have below := UInt64.lt_iff_toNat_lt.mp less
  rw [UInt64.toNat_add, UInt64.toNat_one, Nat.mod_eq_of_lt (by omega)]

/-- The union of a multiple of a power of two with a smaller word is their sum. -/
theorem toNat_or {bits factor : Nat} {high low : UInt64}
    (multiple : high.toNat = factor * 2 ^ bits) (small : low.toNat < 2 ^ bits) :
    (high ||| low).toNat = factor * 2 ^ bits + low.toNat := by
  rw [UInt64.toNat_or, multiple, Nat.mul_comm factor, ← Nat.two_pow_add_eq_or_of_lt small]

/-- A multiple of a power of two has no bit in common with a smaller word. -/
theorem and_eq_zero {bits factor : Nat} {high low : UInt64}
    (multiple : high.toNat = factor * 2 ^ bits) (small : low.toNat < 2 ^ bits) :
    high &&& low = 0 := by
  apply UInt64.toNat_inj.mp
  rw [UInt64.toNat_and, multiple, Nat.mul_comm factor, UInt64.toNat_zero]
  apply Nat.eq_of_testBit_eq
  intro i
  rw [Nat.testBit_and, Nat.testBit_two_pow_mul, Nat.zero_testBit]
  by_cases below : i < bits
  · simp [Nat.not_le.mpr below]
  · have wide : 2 ^ bits ≤ 2 ^ i := Nat.pow_le_pow_right (by decide) (Nat.le_of_not_lt below)
    rw [Nat.testBit_lt_two_pow (Nat.lt_of_lt_of_le small wide), Bool.and_false]

/-- A numeral of two digits stays below the radix times every bound of its high digit. -/
theorem mul_add_lt_mul {high low radix bound : Nat} (h : high < bound) (small : low < radix) :
    high * radix + low < bound * radix := by
  have step : (high + 1) * radix ≤ bound * radix := Nat.mul_le_mul_right radix h
  rw [Nat.succ_mul] at step
  omega

theorem mul_add_div_of_lt {high low radix : Nat} (small : low < radix) :
    (high * radix + low) / radix = high := by
  rw [Nat.mul_comm, Nat.mul_add_div (by omega), Nat.div_eq_of_lt small, Nat.add_zero]

/-- Numerals of two digits are ordered by their high digit first. -/
theorem mul_add_lt_mul_add_iff (high high' : Nat) {radix low low' : Nat}
    (h : low < radix) (h' : low' < radix) :
    high * radix + low < high' * radix + low' ↔
      high < high' ∨ high = high' ∧ low < low' := by
  rcases Nat.lt_trichotomy high high' with less | rfl | greater
  · have below := mul_add_lt_mul less h
    omega
  · omega
  · have below := mul_add_lt_mul greater h'
    omega

theorem mul_add_eq_mul_add_iff (high high' : Nat) {radix low low' : Nat}
    (h : low < radix) (h' : low' < radix) :
    high * radix + low = high' * radix + low' ↔ high = high' ∧ low = low' := by
  have less := mul_add_lt_mul_add_iff high high' h h'
  have greater := mul_add_lt_mul_add_iff high' high h' h
  omega

namespace Layout

/-- Fields of which each one is within its width. -/
structure Fits (l : Layout) (f : Fields) : Prop where
  timestamp : f.timestamp ≤ l.maxTimestamp
  machine : f.machine ≤ l.maxMachine
  sequence : f.sequence ≤ l.maxSequence

/-- Timestamp, machine and sequence as the digits of one numeral. -/
def value (l : Layout) (f : Fields) : Nat :=
  (f.timestamp.toNat * 2 ^ l.machineBits + f.machine.toNat) * 2 ^ l.sequenceBits
    + f.sequence.toNat

theorem timestampBits_lt (l : Layout) : l.timestampBits < 64 := by
  have := l.bits_le
  omega

theorem machineBits_lt (l : Layout) : l.machineBits < 64 := by
  have := l.bits_le
  omega

theorem sequenceBits_lt (l : Layout) : l.sequenceBits < 64 := by
  have := l.bits_le
  omega

theorem le_maxTimestamp_iff (l : Layout) (w : UInt64) :
    w ≤ l.maxTimestamp ↔ w.toNat < 2 ^ l.timestampBits :=
  le_lowMask_iff l.timestampBits_lt w

theorem le_maxMachine_iff (l : Layout) (w : UInt64) :
    w ≤ l.maxMachine ↔ w.toNat < 2 ^ l.machineBits :=
  le_lowMask_iff l.machineBits_lt w

theorem le_maxSequence_iff (l : Layout) (w : UInt64) :
    w ≤ l.maxSequence ↔ w.toNat < 2 ^ l.sequenceBits :=
  le_lowMask_iff l.sequenceBits_lt w

theorem Fits.upper_lt {l : Layout} {f : Fields} (h : l.Fits f) :
    f.timestamp.toNat * 2 ^ l.machineBits + f.machine.toNat
      < 2 ^ (l.timestampBits + l.machineBits) := by
  rw [Nat.pow_add]
  exact mul_add_lt_mul ((l.le_maxTimestamp_iff _).mp h.timestamp)
    ((l.le_maxMachine_iff _).mp h.machine)

theorem Fits.value_lt {l : Layout} {f : Fields} (h : l.Fits f) :
    l.value f < 2 ^ l.valueBits := by
  rw [value, valueBits, Nat.pow_add]
  exact mul_add_lt_mul h.upper_lt ((l.le_maxSequence_iff _).mp h.sequence)

theorem valueBits_lt (l : Layout) : l.valueBits < 64 := by
  have := l.bits_le
  rw [valueBits]
  omega

/-- The numbers of the width of a layout have no sign bit. -/
theorem valueBits_pow_le (l : Layout) : 2 ^ l.valueBits ≤ 2 ^ 63 :=
  Nat.pow_le_pow_right (by decide) l.bits_le

/-- The digits above the sequence, each moved to its place. -/
theorem upper_mul (l : Layout) (f : Fields) :
    (f.timestamp.toNat * 2 ^ l.machineBits + f.machine.toNat) * 2 ^ l.sequenceBits =
      f.timestamp.toNat * 2 ^ l.timestampShift + f.machine.toNat * 2 ^ l.machineShift := by
  rw [timestampShift, machineShift, Nat.add_mul, Nat.mul_assoc, ← Nat.pow_add,
    Nat.add_comm l.machineBits]

theorem pack_toNat {l : Layout} {f : Fields} (h : l.Fits f) :
    (l.pack f).word.toNat = l.value f := by
  have hm := (l.le_maxMachine_iff _).mp h.machine
  have hs := (l.le_maxSequence_iff _).mp h.sequence
  have width := l.bits_le
  -- the whole sum is a word, hence so is each shifted field
  have below : l.value f < 2 ^ 64 :=
    Nat.lt_trans (Nat.lt_of_lt_of_le h.value_lt l.valueBits_pow_le) (by decide)
  rw [value, upper_mul] at below
  have high : (f.timestamp <<< UInt64.ofNat l.timestampShift).toNat =
      f.timestamp.toNat * 2 ^ l.timestampShift :=
    toNat_shiftLeft (by rw [timestampShift]; omega) (by omega)
  have mid : (f.machine <<< UInt64.ofNat l.machineShift).toNat =
      f.machine.toNat * 2 ^ l.machineShift :=
    toNat_shiftLeft (by rw [machineShift]; omega) (by omega)
  have midSmall : (f.machine <<< UInt64.ofNat l.machineShift).toNat < 2 ^ l.timestampShift := by
    rw [mid, timestampShift, machineShift, Nat.add_comm, Nat.pow_add]
    exact Nat.mul_lt_mul_of_pos_right hm (Nat.two_pow_pos _)
  have upper := toNat_or high midSmall
  rw [mid, ← upper_mul] at upper
  exact toNat_or upper hs

theorem check_eq_ok_iff (field : Field) (value max : UInt64) (u : Unit) :
    check field value max = .ok u ↔ value ≤ max := by
  by_cases h : value ≤ max
  · simp [check, h]
  · simp [check, h]

/-- Encoding succeeds exactly on fields that fit, and then packs them. -/
theorem encode_eq_ok_iff (l : Layout) (f : Fields) (s : Stamp) :
    l.encode f = .ok s ↔ l.Fits f ∧ s = l.pack f := by
  simp only [encode, Fault.bind_eq_ok_iff, check_eq_ok_iff, exists_const]
  constructor
  · rintro ⟨ht, hm, hs, packed⟩
    exact ⟨⟨ht, hm, hs⟩, (Except.ok.inj packed).symm⟩
  · rintro ⟨fits, rfl⟩
    exact ⟨fits.timestamp, fits.machine, fits.sequence, rfl⟩

/-- A refusal to encode names a field that is too large. -/
theorem encode_cases (l : Layout) (f : Fields) :
    (∃ s, l.encode f = .ok s) ∨
      ∃ field value max, l.encode f = .error (.fieldTooLarge field value max) := by
  by_cases timestamp : f.timestamp ≤ l.maxTimestamp
  · by_cases machine : f.machine ≤ l.maxMachine
    · by_cases sequence : f.sequence ≤ l.maxSequence
      · exact Or.inl ⟨_, (l.encode_eq_ok_iff f _).mpr ⟨⟨timestamp, machine, sequence⟩, rfl⟩⟩
      · exact Or.inr ⟨.sequence, f.sequence, l.maxSequence, by
          simp [encode, check, timestamp, machine, sequence, bind, Except.bind]⟩
    · exact Or.inr ⟨.machine, f.machine, l.maxMachine, by
        simp [encode, check, timestamp, machine, bind, Except.bind]⟩
  · exact Or.inr ⟨.timestamp, f.timestamp, l.maxTimestamp, by
      simp [encode, check, timestamp, bind, Except.bind]⟩

/-- The fields of any word, as digits of its value. -/
theorem decode_timestamp_toNat (l : Layout) (s : Stamp) :
    (l.decode s).timestamp.toNat = s.word.toNat / 2 ^ l.timestampShift % 2 ^ l.timestampBits := by
  have width := l.bits_le
  have shift : l.timestampShift < 64 := by rw [timestampShift]; omega
  rw [decode, maxTimestamp, toNat_and_lowMask l.timestampBits_lt, toNat_shiftRight shift]

theorem decode_machine_toNat (l : Layout) (s : Stamp) :
    (l.decode s).machine.toNat = s.word.toNat / 2 ^ l.machineShift % 2 ^ l.machineBits := by
  rw [decode, maxMachine, machineShift, toNat_and_lowMask l.machineBits_lt,
    toNat_shiftRight l.sequenceBits_lt]

theorem decode_sequence_toNat (l : Layout) (s : Stamp) :
    (l.decode s).sequence.toNat = s.word.toNat % 2 ^ l.sequenceBits := by
  rw [decode, maxSequence, toNat_and_lowMask l.sequenceBits_lt]

theorem decode_pack {l : Layout} {f : Fields} (h : l.Fits f) : l.decode (l.pack f) = f := by
  have ht := (l.le_maxTimestamp_iff _).mp h.timestamp
  have hm := (l.le_maxMachine_iff _).mp h.machine
  have hs := (l.le_maxSequence_iff _).mp h.sequence
  have upper : l.value f / 2 ^ l.sequenceBits =
      f.timestamp.toNat * 2 ^ l.machineBits + f.machine.toNat := by
    rw [value, mul_add_div_of_lt hs]
  have timestamp : (l.decode (l.pack f)).timestamp = f.timestamp := by
    apply UInt64.toNat_inj.mp
    rw [decode_timestamp_toNat, pack_toNat h, timestampShift, Nat.pow_add,
      ← Nat.div_div_eq_div_mul, upper, mul_add_div_of_lt hm, Nat.mod_eq_of_lt ht]
  have machine : (l.decode (l.pack f)).machine = f.machine := by
    apply UInt64.toNat_inj.mp
    rw [decode_machine_toNat, pack_toNat h, machineShift, upper, Nat.mul_add_mod_of_lt hm]
  have sequence : (l.decode (l.pack f)).sequence = f.sequence := by
    apply UInt64.toNat_inj.mp
    rw [decode_sequence_toNat, pack_toNat h, value, Nat.mul_add_mod_of_lt hs]
  cases f
  simp only [Fields.mk.injEq, decode] at timestamp machine sequence ⊢
  exact ⟨timestamp, machine, sequence⟩

/-- Packed words are ordered by timestamp, then machine, then sequence. -/
theorem value_lt_value_iff {l : Layout} {f g : Fields} (hf : l.Fits f) (hg : l.Fits g) :
    l.value f < l.value g ↔
      f.timestamp < g.timestamp ∨ f.timestamp = g.timestamp ∧
        (f.machine < g.machine ∨ f.machine = g.machine ∧ f.sequence < g.sequence) := by
  have fm := (l.le_maxMachine_iff _).mp hf.machine
  have gm := (l.le_maxMachine_iff _).mp hg.machine
  rw [value, value, mul_add_lt_mul_add_iff _ _ ((l.le_maxSequence_iff _).mp hf.sequence)
    ((l.le_maxSequence_iff _).mp hg.sequence), mul_add_lt_mul_add_iff _ _ fm gm,
    mul_add_eq_mul_add_iff _ _ fm gm]
  simp only [UInt64.lt_iff_toNat_lt, ← UInt64.toNat_inj]
  constructor
  · rintro ((earlier | ⟨tick, less⟩) | ⟨⟨tick, machine⟩, less⟩)
    · exact Or.inl earlier
    · exact Or.inr ⟨tick, Or.inl less⟩
    · exact Or.inr ⟨tick, Or.inr ⟨machine, less⟩⟩
  · rintro (earlier | ⟨tick, less | ⟨machine, less⟩⟩)
    · exact Or.inl (Or.inl earlier)
    · exact Or.inl (Or.inr ⟨tick, less⟩)
    · exact Or.inr ⟨⟨tick, machine⟩, less⟩

end Layout
end Tickstamp
