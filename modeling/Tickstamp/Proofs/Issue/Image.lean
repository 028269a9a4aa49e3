import Tickstamp.Proofs.Issue.Commit

/-!
# Progress in one word

Within the layout, the flag, the timestamp and the sequence of a packed
progress occupy separate bits, so the word stands for exactly that progress.
The flag is the highest of them and the sequence the lowest, so later progress
is a larger word, and a commit always makes the word larger. The machine has no
place in the word, which therefore is not the stamp with a flag. What words
that no progress is packed to are read as is not considered.
-/

namespace Tickstamp

theorem Layout.image_lt {l : Layout} {timestamp sequence : UInt64}
    (within : (Progress.issued timestamp sequence).Within l) :
    timestamp.toNat * 2 ^ l.sequenceBits + sequence.toNat < 2 ^ 63 := by
  have ht := (l.le_maxTimestamp_iff _).mp within.1
  have hs := (l.le_maxSequence_iff _).mp within.2
  have width := l.bits_le
  have room : 2 ^ (l.timestampBits + l.sequenceBits) ≤ 2 ^ 63 :=
    Nat.pow_le_pow_right (by decide) (by omega)
  rw [Nat.pow_add] at room
  exact Nat.lt_of_lt_of_le (mul_add_lt_mul ht hs) room

namespace Progress

theorem pack_toNat {l : Layout} {timestamp sequence : UInt64}
    (within : (issued timestamp sequence).Within l) :
    ((issued timestamp sequence).pack l.sequenceBits).toNat =
      2 ^ 63 + (timestamp.toNat * 2 ^ l.sequenceBits + sequence.toNat) := by
  have below := Layout.image_lt within
  have hs := (l.le_maxSequence_iff _).mp within.2
  have shifted : (timestamp <<< UInt64.ofNat l.sequenceBits).toNat =
      timestamp.toNat * 2 ^ l.sequenceBits :=
    toNat_shiftLeft l.sequenceBits_lt (by omega)
  have flag : startedFlag.toNat = 1 * 2 ^ 63 := by decide
  have started := toNat_or flag (by rw [shifted]; omega)
  have factored : 1 * 2 ^ 63 + timestamp.toNat * 2 ^ l.sequenceBits =
      (2 ^ (63 - l.sequenceBits) + timestamp.toNat) * 2 ^ l.sequenceBits := by
    have width := l.bits_le
    rw [Nat.add_mul, ← Nat.pow_add, Nat.sub_add_cancel (by omega), Nat.one_mul]
  rw [shifted, factored] at started
  rw [pack, toNat_or started hs, ← factored]
  omega

theorem unpack_pack {l : Layout} {p : Progress} (within : p.Within l) :
    unpack (p.pack l.sequenceBits) l.sequenceBits = p := by
  cases p with
  | fresh => rw [pack, unpack, if_neg (by decide)]
  | issued timestamp sequence =>
    have below := Layout.image_lt within
    have hs := (l.le_maxSequence_iff _).mp within.2
    have word := pack_toNat within
    have flag : (issued timestamp sequence).pack l.sequenceBits >>> 63 = 1 := by
      apply UInt64.toNat_inj.mp
      have shifted := toNat_shiftRight (show 63 < 64 by decide)
        ((issued timestamp sequence).pack l.sequenceBits)
      rw [word] at shifted
      refine shifted.trans ?_
      rw [UInt64.toNat_one]
      omega
    have body : ((issued timestamp sequence).pack l.sequenceBits &&& ~~~startedFlag).toNat =
        timestamp.toNat * 2 ^ l.sequenceBits + sequence.toNat := by
      have mask : ~~~startedFlag = lowMask 63 := by decide
      rw [mask, toNat_and_lowMask (by decide), word, Nat.add_mod_left, Nat.mod_eq_of_lt below]
    have high : ((issued timestamp sequence).pack l.sequenceBits &&& ~~~startedFlag)
        >>> UInt64.ofNat l.sequenceBits = timestamp := by
      apply UInt64.toNat_inj.mp
      rw [toNat_shiftRight l.sequenceBits_lt, body, mul_add_div_of_lt hs]
    have low : ((issued timestamp sequence).pack l.sequenceBits &&& ~~~startedFlag)
        &&& lowMask l.sequenceBits = sequence := by
      apply UInt64.toNat_inj.mp
      rw [toNat_and_lowMask l.sequenceBits_lt, body, Nat.mul_add_mod_of_lt hs]
    simp only [unpack, if_pos flag, high, low]

/-- Whatever has been issued comes after nothing, and otherwise the later tick comes after the
earlier one, and in one tick the larger sequence. -/
instance : LT Progress where
  lt
    | .fresh, .issued _ _ => True
    | .issued timestamp sequence, .issued timestamp' sequence' =>
      timestamp < timestamp' ∨ timestamp = timestamp' ∧ sequence < sequence'
    | _, .fresh => False

/-- What a reading allows to be issued is ahead of the progress so far, even if it does not fit. -/
theorem lt_of_advance {p : Progress} {now maxSequence timestamp sequence : UInt64}
    {carryOver : CarryOver}
    (issue : p.advance now maxSequence carryOver = .issue timestamp sequence) :
    p < issued timestamp sequence := by
  cases p with
  | fresh => trivial
  | issued last used =>
    rcases (advance_issued_eq_issue_iff ..).mp issue with ⟨rfl, ⟨same, room, rfl⟩ | ⟨later, _⟩⟩
    · refine Or.inr ⟨same, ?_⟩
      rw [UInt64.lt_iff_toNat_lt, toNat_add_one_of_lt room]
      exact Nat.lt_succ_self _
    · exact Or.inl later

theorem pack_lt_pack_iff {l : Layout} {p q : Progress} (hp : p.Within l) (hq : q.Within l) :
    p.pack l.sequenceBits < q.pack l.sequenceBits ↔ p < q := by
  rw [UInt64.lt_iff_toNat_lt]
  cases q with
  | fresh =>
    have least : ¬ p < fresh := by cases p <;> exact id
    rw [pack, UInt64.toNat_zero]
    exact iff_of_false (Nat.not_lt_zero _) least
  | issued timestamp' sequence' =>
    rw [pack_toNat hq]
    cases p with
    | fresh =>
      rw [pack, UInt64.toNat_zero]
      exact iff_of_true (by omega) trivial
    | issued timestamp sequence =>
      have small := (l.le_maxSequence_iff _).mp hp.2
      have small' := (l.le_maxSequence_iff _).mp hq.2
      rw [pack_toNat hp, Nat.add_lt_add_iff_left, mul_add_lt_mul_add_iff _ _ small small',
        ← UInt64.lt_iff_toNat_lt, ← UInt64.lt_iff_toNat_lt, UInt64.toNat_inj]
      exact Iff.rfl

theorem pack_lt_of_commit {r : Rules} {p next : Progress} {now : UInt64} {stamp : Stamp}
    (within : p.Within r.layout) (h : r.respond p now = .ok (.commit next stamp)) :
    p.pack r.layout.sequenceBits < next.pack r.layout.sequenceBits := by
  have after := Rules.within_of_commit h
  obtain ⟨sequence, issue, _, rfl, _⟩ := (Rules.respond_eq_commit_iff ..).mp h
  exact (pack_lt_pack_iff within after).mpr (lt_of_advance issue)

/-- Under a layout, a packed progress is read back as it was. Its timestamp is shifted without
losing a bit, and has no bit in common with the flag or the sequence, nor have these two. Words are
in the order of the progress that they stand for, and whatever is issued and can be encoded, by
whatever carry-over, makes the word larger. -/
theorem word_faithful (l : Layout) :
    (∀ p : Progress, p.Within l → unpack (p.pack l.sequenceBits) l.sequenceBits = p) ∧
    (∀ timestamp sequence, (issued timestamp sequence).Within l →
      let shifted := timestamp <<< UInt64.ofNat l.sequenceBits
      (issued timestamp sequence).pack l.sequenceBits = startedFlag ||| shifted ||| sequence ∧
        shifted.toNat = timestamp.toNat * 2 ^ l.sequenceBits ∧
        startedFlag &&& shifted = 0 ∧ startedFlag &&& sequence = 0 ∧ shifted &&& sequence = 0) ∧
    (∀ p q : Progress, p.Within l → q.Within l →
      (p.pack l.sequenceBits < q.pack l.sequenceBits ↔ p < q)) ∧
    ∀ (p : Progress) (now timestamp sequence machine : UInt64) (carryOver : CarryOver)
      (stamp : Stamp), p.Within l →
      p.advance now l.maxSequence carryOver = .issue timestamp sequence →
        l.encode ⟨timestamp, machine, sequence⟩ = .ok stamp →
          p.pack l.sequenceBits < (issued timestamp sequence).pack l.sequenceBits := by
  refine ⟨fun _ => unpack_pack, ?_, fun _ _ => pack_lt_pack_iff, ?_⟩
  · intro timestamp sequence within shifted
    have below := Layout.image_lt within
    have small := (l.le_maxSequence_iff _).mp within.2
    have moved : shifted.toNat = timestamp.toNat * 2 ^ l.sequenceBits :=
      toNat_shiftLeft l.sequenceBits_lt (by omega)
    have flag : startedFlag.toNat = 1 * 2 ^ 63 := by decide
    exact ⟨rfl, moved, and_eq_zero flag (by omega), and_eq_zero flag (by omega),
      and_eq_zero moved small⟩
  · intro p now timestamp sequence machine carryOver stamp within issue coded
    obtain ⟨fits, _⟩ := (l.encode_eq_ok_iff ..).mp coded
    have after : (issued timestamp sequence).Within l := ⟨fits.timestamp, fits.sequence⟩
    exact (pack_lt_pack_iff within after).mpr (lt_of_advance issue)

/-- With a single bit for the timestamp, the word after the last sequence of a tick is the next
number. -/
theorem word_faithful_between_ticks :
    ∃ l, Layout.ofBits 1 1 61 = .ok l ∧
      (issued 0 0x1FFFFFFFFFFFFFFF).pack l.sequenceBits = 0x9FFFFFFFFFFFFFFF ∧
      unpack 0x9FFFFFFFFFFFFFFF l.sequenceBits = issued 0 0x1FFFFFFFFFFFFFFF ∧
      startedFlag &&& (1 <<< UInt64.ofNat l.sequenceBits) = 0 ∧
      (issued 0 0x1FFFFFFFFFFFFFFF).advance 1 l.maxSequence .half = .issue 1 0 ∧
      (issued 1 0).pack l.sequenceBits = 0xA000000000000000 ∧
      (issued 0 0x1FFFFFFFFFFFFFFF).pack l.sequenceBits < (issued 1 0).pack l.sequenceBits := by
  obtain ⟨back, apart, _, larger⟩ :=
    word_faithful ⟨1, 1, 61, by decide, by decide, by decide, by decide⟩
  have last := back (issued 0 0x1FFFFFFFFFFFFFFF) ⟨by decide, by decide⟩
  have word : (issued 0 0x1FFFFFFFFFFFFFFF).pack 61 = 0x9FFFFFFFFFFFFFFF := rfl
  rw [word] at last
  obtain ⟨_, _, flag, _⟩ := apart 1 0 ⟨by decide, by decide⟩
  have step := larger (issued 0 0x1FFFFFFFFFFFFFFF) 1 1 0 0 .half ⟨0x4000000000000000⟩
    ⟨by decide, by decide⟩ rfl rfl
  exact ⟨_, rfl, word, last, flag, rfl, rfl, step⟩

end Progress
end Tickstamp
