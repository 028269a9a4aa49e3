import Tickstamp.Policy
import Tickstamp.Proofs.Packing

/-!
# Thresholds

Every way to carry the sequence over from tick to tick comes down to one number:
the sequence from which on the next tick begins afresh. It is the threshold that
was set, zero if nothing is carried over, and the last number of the lower half
otherwise. So the ways with the same number are the same, and no tick begins
above it. That the number is within the layout is a matter of validation.
-/

namespace Tickstamp

theorem Layout.toNat_maxSequence (l : Layout) : l.maxSequence.toNat = 2 ^ l.sequenceBits - 1 :=
  toNat_lowMask l.sequenceBits_lt

theorem Layout.pow_sequenceBits (l : Layout) :
    2 ^ l.sequenceBits = 2 * 2 ^ (l.sequenceBits - 1) := by
  rw [← Nat.pow_succ', Nat.succ_eq_add_one, Nat.sub_add_cancel l.sequence_pos]

namespace CarryOver

/-- A tick that has come to this sequence is followed by one that begins afresh. -/
def threshold (l : Layout) : CarryOver → Nat
  | .never => 0
  | .upTo threshold => threshold.toNat
  | .half => 2 ^ (l.sequenceBits - 1) - 1

/-- Half of the last sequence is the last sequence of the lower half. -/
theorem toNat_half_maxSequence (l : Layout) :
    (l.maxSequence >>> 1).toNat = 2 ^ (l.sequenceBits - 1) - 1 := by
  have halved : (l.maxSequence >>> 1).toNat = l.maxSequence.toNat / 2 ^ 1 :=
    toNat_shiftRight (show 1 < 64 by decide) l.maxSequence
  rw [halved, l.toNat_maxSequence, l.pow_sequenceBits]
  omega

/-- A new tick takes the next sequence, or begins afresh if the threshold has been reached. -/
theorem toNat_start (carryOver : CarryOver) (l : Layout) (previous : UInt64) :
    (carryOver.start previous l.maxSequence).toNat =
      if carryOver.threshold l ≤ previous.toNat then 0 else previous.toNat + 1 := by
  have runsOn (limit : UInt64) : (if limit ≤ previous then 0 else previous + 1 : UInt64).toNat =
      if limit.toNat ≤ previous.toNat then 0 else previous.toNat + 1 := by
    by_cases reached : limit ≤ previous
    · rw [if_pos reached, if_pos (UInt64.le_iff_toNat_le.mp reached)]
      rfl
    · rw [if_neg reached, if_neg fun le => reached (UInt64.le_iff_toNat_le.mpr le),
        toNat_add_one_of_lt (UInt64.not_le.mp reached)]
  cases carryOver with
  | never =>
    rw [threshold, if_pos (Nat.zero_le _)]
    rfl
  | upTo limit => exact runsOn limit
  | half =>
    rw [threshold, ← toNat_half_maxSequence]
    exact runsOn (l.maxSequence >>> 1)

theorem start_le_threshold (carryOver : CarryOver) (l : Layout) (previous : UInt64) :
    (carryOver.start previous l.maxSequence).toNat ≤ carryOver.threshold l := by
  rw [toNat_start]
  split
  · exact Nat.zero_le _
  · omega

theorem start_congr {a b : CarryOver} {l : Layout} (same : a.threshold l = b.threshold l)
    (previous : UInt64) : a.start previous l.maxSequence = b.start previous l.maxSequence := by
  apply UInt64.toNat_inj.mp
  rw [toNat_start, toNat_start, same]

theorem threshold_le {carryOver : CarryOver} {l : Layout}
    (valid : carryOver.validate l = .ok ()) : carryOver.threshold l ≤ l.maxSequence.toNat := by
  cases carryOver with
  | never => exact Nat.zero_le _
  | upTo limit =>
    by_cases low : limit ≤ l.maxSequence
    · exact UInt64.le_iff_toNat_le.mp low
    · simp [validate, low] at valid
  | half =>
    rw [threshold, l.toNat_maxSequence]
    exact Nat.sub_le_sub_right (Nat.pow_le_pow_right Nat.two_pos (Nat.sub_le _ 1)) 1

theorem start_le {carryOver : CarryOver} {l : Layout}
    (valid : carryOver.validate l = .ok ()) (previous : UInt64) :
    carryOver.start previous l.maxSequence ≤ l.maxSequence :=
  UInt64.le_iff_toNat_le.mpr
    (Nat.le_trans (carryOver.start_le_threshold l previous) (threshold_le valid))

/-- A used-up tick is not carried over. -/
theorem start_of_usedUp {carryOver : CarryOver} {l : Layout}
    (valid : carryOver.validate l = .ok ()) :
    carryOver.start l.maxSequence l.maxSequence = 0 := by
  apply UInt64.toNat_inj.mp
  rw [toNat_start, if_pos (threshold_le valid)]
  rfl

/-- The half written as a threshold is the half. -/
theorem threshold_halfOf (l : Layout) : (halfOf l).threshold l = half.threshold l := by
  have width := l.sequenceBits_lt
  exact toNat_lowMask (by omega)

theorem validate_halfOf (l : Layout) : (halfOf l).validate l = .ok () := by
  refine if_pos (UInt64.le_iff_toNat_le.mpr ?_)
  have le : half.threshold l ≤ l.maxSequence.toNat := threshold_le rfl
  rw [← threshold_halfOf] at le
  exact le

theorem validate_upTo_zero (l : Layout) : (upTo 0).validate l = .ok () := by
  rw [validate, if_pos UInt64.zero_le]

end CarryOver
end Tickstamp
