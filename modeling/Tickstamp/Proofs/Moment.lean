import Tickstamp.Clock

/-!
# Timestamps and moments

A timestamp counts from the epoch of a configuration, and its moment is their
sum, if 64 bits hold it; a valid configuration has a moment for every timestamp
of its layout. The reading of a system clock is the timestamp whose moment is the
present one, as long as that is not before the epoch. How moments are written as
seconds and nanoseconds is not a matter of this module, except that an epoch
survives it.
-/

namespace Tickstamp
namespace Config

theorem moment_eq_ok_iff (c : Config) (timestamp unixMillis : UInt64) :
    c.moment timestamp = .ok unixMillis ↔ unixMillis.toNat = c.epoch.toNat + timestamp.toNat := by
  by_cases room : c.epoch.toNat + timestamp.toNat < UInt64.size
  · have sum : (c.epoch + timestamp).toNat = c.epoch.toNat + timestamp.toNat :=
      (UInt64.toNat_add ..).trans (Nat.mod_eq_of_lt room)
    rw [moment, if_pos room, Except.ok.injEq, ← UInt64.toNat_inj, sum]
    exact eq_comm
  · have bound := unixMillis.toNat_lt_size
    rw [moment, if_neg room]
    constructor
    · rintro ⟨⟩
    · intro h
      omega

theorem moment_lt_iff {c : Config} {s t a b : UInt64} (ha : c.moment s = .ok a)
    (hb : c.moment t = .ok b) : a < b ↔ s < t := by
  have sum := (c.moment_eq_ok_iff ..).mp ha
  have sum' := (c.moment_eq_ok_iff ..).mp hb
  rw [UInt64.lt_iff_toNat_lt, UInt64.lt_iff_toNat_lt]
  omega

theorem moment_eq_iff {c : Config} {s t a b : UInt64} (ha : c.moment s = .ok a)
    (hb : c.moment t = .ok b) : a = b ↔ s = t := by
  have sum := (c.moment_eq_ok_iff ..).mp ha
  have sum' := (c.moment_eq_ok_iff ..).mp hb
  rw [← UInt64.toNat_inj, ← UInt64.toNat_inj]
  omega

/-- Validation looks at the epoch, then at the last timestamp of the layout, and then at the
carry-over. -/
theorem validate_eq (c : Config) :
    c.validate =
      if c.epoch = 0 then .error (.misconfigured .zeroEpoch)
      else if c.epoch.toNat + c.layout.maxTimestamp.toNat < UInt64.size then
        c.carryOver.validate c.layout
      else .error (.misconfigured (.epochOverflow c.epoch c.layout.maxTimestamp)) := by
  by_cases zero : c.epoch = 0
  · simp [validate, zero, throw, throwThe, MonadExceptOf.throw, bind, Except.bind]
  · by_cases room : c.epoch.toNat + c.layout.maxTimestamp.toNat < UInt64.size
    · simp [validate, moment, zero, room, bind, Except.bind]
    · simp [validate, moment, zero, room, bind, Except.bind]

/-- Settings are accepted if the epoch is positive, the last timestamp of the layout has a moment,
and the carry-over suits the layout. -/
theorem validate_eq_ok_iff (c : Config) :
    c.validate = .ok () ↔ c.epoch ≠ 0 ∧
      c.epoch.toNat + c.layout.maxTimestamp.toNat < UInt64.size ∧
      c.carryOver.validate c.layout = .ok () := by
  rw [validate_eq]
  by_cases zero : c.epoch = 0
  · simp [zero]
  · by_cases room : c.epoch.toNat + c.layout.maxTimestamp.toNat < UInt64.size
    · simp [zero, room]
    · simp [zero, room]

theorem exists_moment {c : Config} (valid : c.validate = .ok ()) {timestamp : UInt64}
    (fits : timestamp ≤ c.layout.maxTimestamp) :
    ∃ unixMillis, c.moment timestamp = .ok unixMillis ∧
      unixMillis.toNat = c.epoch.toNat + timestamp.toNat := by
  obtain ⟨_, last, _⟩ := c.validate_eq_ok_iff.mp valid
  have le := UInt64.le_iff_toNat_le.mp fits
  have sum : (UInt64.ofNat (c.epoch.toNat + timestamp.toNat)).toNat =
      c.epoch.toNat + timestamp.toNat := UInt64.toNat_ofNat_of_lt' (by omega)
  exact ⟨_, (c.moment_eq_ok_iff ..).mpr sum, sum⟩

/-- The system clock of a configuration starts at its epoch, which must not lie in the future. -/
theorem systemClock_eq_ok_iff (c : Config) (now : UInt64) (clock : SystemClock) :
    c.systemClock now = .ok clock ↔ c.epoch ≠ 0 ∧ c.epoch ≤ now ∧ clock = ⟨c.epoch⟩ := by
  have seconds : (c.epoch / 1000).toNat = c.epoch.toNat / 1000 := UInt64.toNat_div ..
  have nanos : (c.epoch % 1000 * 1000000).toNat = c.epoch.toNat % 1000 * 1000000 := by
    have small : c.epoch.toNat % 1000 < 1000 := Nat.mod_lt _ (by decide)
    rw [UInt64.toNat_mul, UInt64.toNat_mod]
    exact Nat.mod_eq_of_lt (by simp only [UInt64.reduceToNat]; omega)
  have whole : (c.epoch / 1000).toNat * 1000 + (c.epoch % 1000 * 1000000).toNat / 1000000 =
      c.epoch.toNat := by
    rw [seconds, nanos]
    omega
  have fits : ¬ UInt64.size ≤ c.epoch.toNat := Nat.not_le.mpr c.epoch.toNat_lt_size
  simp only [systemClock, epochTime, splitMillis, SystemClock.withEpoch, whole, if_neg fits,
    UInt64.ofNat_toNat]
  have zero : c.epoch.toNat = 0 ↔ c.epoch = 0 := by
    rw [← UInt64.toNat_inj, UInt64.toNat_zero]
  rw [UInt64.le_iff_toNat_le]
  by_cases none : c.epoch = 0
  · simp [none]
  · by_cases ahead : now.toNat < c.epoch.toNat
    · have future : ¬ c.epoch.toNat ≤ now.toNat := Nat.not_le.mpr ahead
      simp [zero, none, ahead, future]
    · have reached : c.epoch.toNat ≤ now.toNat := Nat.not_lt.mp ahead
      simp [zero, none, ahead, reached, eq_comm]

end Config

/-- The moment of a reading of the system clock is the wall-clock time, or the epoch if that is
later. -/
theorem SystemClock.epoch_add_reading (c : SystemClock) (unixMillis : UInt64) :
    c.epoch.toNat + (c.reading unixMillis).toNat = max unixMillis.toNat c.epoch.toNat := by
  by_cases reached : c.epoch ≤ unixMillis
  · have le := UInt64.le_iff_toNat_le.mp reached
    rw [reading, if_pos reached, UInt64.toNat_sub_of_le _ _ reached]
    omega
  · have before := UInt64.lt_iff_toNat_lt.mp (UInt64.not_le.mp reached)
    rw [reading, if_neg reached, UInt64.toNat_zero]
    omega

end Tickstamp
