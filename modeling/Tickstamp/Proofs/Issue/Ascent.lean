import Tickstamp.Proofs.Issue.Commit

/-!
# Stamps ascend

Every progress has a mark: a number above all stamps that led to it and not
above any stamp that can follow. A commit raises the mark past its stamp, and
nothing lowers it, so the stamps of every history ascend, whatever the clock
shows. A used-up tick has the first number of the next tick as its mark, which
no longer depends on the machine. No claim is made about how close to the mark
the next stamp is.
-/

namespace Tickstamp

/-- Stamps that ascend from one number to another. -/
structure Stamp.Climb (low : Nat) (stamps : List Stamp) (high : Nat) : Prop where
  le : low ≤ high
  increasing : stamps.Pairwise (· < ·)
  bounds : ∀ s ∈ stamps, low ≤ s.word.toNat ∧ s.word.toNat < high

namespace Stamp

theorem lt_iff_toNat_lt {a b : Stamp} : a < b ↔ a.word.toNat < b.word.toNat :=
  UInt64.lt_iff_toNat_lt

theorem Climb.nil {low high : Nat} (h : low ≤ high) : Climb low [] high :=
  ⟨h, List.Pairwise.nil, by simp⟩

theorem Climb.single {low high : Nat} {s : Stamp} (above : low ≤ s.word.toNat)
    (below : s.word.toNat < high) : Climb low [s] high :=
  ⟨by omega, List.pairwise_singleton _ _, by simp [above, below]⟩

theorem Climb.append {low mid high : Nat} {earlier later : List Stamp}
    (first : Climb low earlier mid) (second : Climb mid later high) :
    Climb low (earlier ++ later) high := by
  refine ⟨Nat.le_trans first.le second.le, ?_, ?_⟩
  · rw [List.pairwise_append]
    refine ⟨first.increasing, second.increasing, ?_⟩
    intro a ha b hb
    have below := (first.bounds a ha).2
    have above := (second.bounds b hb).1
    exact lt_iff_toNat_lt.mpr (by omega)
  · intro s hs
    rcases List.mem_append.mp hs with hs | hs
    · exact ⟨(first.bounds s hs).1, Nat.lt_of_lt_of_le (first.bounds s hs).2 second.le⟩
    · exact ⟨Nat.le_trans first.le (second.bounds s hs).1, (second.bounds s hs).2⟩

theorem nodup_of_increasing {stamps : List Stamp} (h : stamps.Pairwise (· < ·)) :
    stamps.Nodup := by
  refine h.imp ?_
  rintro a _ less rfl
  exact Nat.lt_irrefl _ (lt_iff_toNat_lt.mp less)

end Stamp

namespace Layout

/-- The first number of a tick is not above any stamp in it. -/
theorem tick_le_value (l : Layout) (f : Fields) :
    f.timestamp.toNat * 2 ^ l.timestampShift ≤ l.value f := by
  rw [value, upper_mul]
  omega

/-- Every stamp of a tick is below the first number of the next. -/
theorem value_lt_tick {l : Layout} {f : Fields} (machine : f.machine ≤ l.maxMachine)
    (sequence : f.sequence ≤ l.maxSequence) :
    l.value f < (f.timestamp.toNat + 1) * 2 ^ l.timestampShift := by
  have upper := mul_add_lt_mul (Nat.lt_succ_self f.timestamp.toNat)
    ((l.le_maxMachine_iff _).mp machine)
  rw [value, timestampShift, Nat.pow_add, Nat.mul_comm (2 ^ l.sequenceBits), ← Nat.mul_assoc]
  exact mul_add_lt_mul upper ((l.le_maxSequence_iff _).mp sequence)

theorem value_succ {l : Layout} {timestamp machine sequence : UInt64}
    (room : sequence < l.maxSequence) :
    l.value ⟨timestamp, machine, sequence + 1⟩ = l.value ⟨timestamp, machine, sequence⟩ + 1 := by
  simp only [value]
  rw [toNat_add_one_of_lt room, Nat.add_assoc]

end Layout

namespace Rules

/-- A number between the stamps up to this progress and those after it. -/
def mark (r : Rules) (p : Progress) : Nat :=
  match p with
  | .fresh => 0
  | .issued timestamp sequence =>
    if sequence < r.layout.maxSequence then r.layout.value ⟨timestamp, r.machine, sequence⟩ + 1
    else (timestamp.toNat + 1) * 2 ^ r.layout.timestampShift

theorem value_lt_mark {r : Rules} {timestamp sequence : UInt64}
    (fits : r.layout.Fits ⟨timestamp, r.machine, sequence⟩) :
    r.layout.value ⟨timestamp, r.machine, sequence⟩ < r.mark (.issued timestamp sequence) := by
  rw [mark]
  split
  · omega
  · exact Layout.value_lt_tick fits.machine fits.sequence

/-- The mark never stands above the first number of the next tick. -/
theorem mark_le_tick {r : Rules} (machine : r.machine ≤ r.layout.maxMachine)
    (timestamp sequence : UInt64) :
    r.mark (.issued timestamp sequence) ≤ (timestamp.toNat + 1) * 2 ^ r.layout.timestampShift := by
  rw [mark]
  split
  · rename_i room
    exact Layout.value_lt_tick machine (UInt64.le_of_lt room)
  · exact Nat.le_refl _

/-- No stamp is committed below the mark. -/
theorem mark_le_of_commit {r : Rules} {p next : Progress} {now : UInt64} {stamp : Stamp}
    (h : r.respond p now = .ok (.commit next stamp)) : r.mark p ≤ stamp.word.toNat := by
  obtain ⟨sequence, issue, fits, _, rfl⟩ := (respond_eq_commit_iff ..).mp h
  rw [Layout.pack_toNat fits]
  cases p with
  | fresh => exact Nat.zero_le _
  | issued last used =>
    -- the same tick, where the mark is the very next number, or a later tick
    rcases ((Progress.advance_issued_eq_issue_iff ..).mp issue).2 with
      ⟨rfl, room, rfl⟩ | ⟨later, _⟩
    · rw [mark, if_pos room]
      exact Nat.le_of_eq (Layout.value_succ room).symm
    · have tick := Nat.mul_le_mul_right (2 ^ r.layout.timestampShift)
        (Nat.succ_le_of_lt (UInt64.lt_iff_toNat_lt.mp later))
      exact Nat.le_trans (mark_le_tick fits.machine last used)
        (Nat.le_trans tick (r.layout.tick_le_value ⟨now, r.machine, sequence⟩))

/-- A commit raises the mark past its stamp. -/
theorem lt_mark_of_commit {r : Rules} {p next : Progress} {now : UInt64} {stamp : Stamp}
    (h : r.respond p now = .ok (.commit next stamp)) : stamp.word.toNat < r.mark next := by
  obtain ⟨sequence, _, fits, rfl, rfl⟩ := (respond_eq_commit_iff ..).mp h
  rw [Layout.pack_toNat fits]
  exact value_lt_mark fits

end Rules

theorem Answer.stamps_cons (answer : Answer) (rest : List Answer) :
    stamps (answer :: rest) = answer.stamp?.toList ++ stamps rest := by
  cases h : answer.stamp? <;> simp [stamps, h]

theorem Answer.stamps_append (earlier later : List Answer) :
    stamps (earlier ++ later) = stamps earlier ++ stamps later :=
  List.filterMap_append

theorem Answer.stamps_map_ready (stamps : List Stamp) :
    Answer.stamps (stamps.map .ready) = stamps := by
  induction stamps with
  | nil => rfl
  | cons s rest ih =>
    rw [List.map_cons, stamps_cons, ih]
    rfl

namespace LockedGenerator

/-- The number from which on the generator issues. -/
def mark (g : LockedGenerator) : Nat :=
  g.rules.mark g.progress

theorem attempt_climb (g : LockedGenerator) (reading : Reading) :
    Stamp.Climb g.mark (g.attempt reading).1.stamp?.toList (g.attempt reading).2.mark := by
  rcases g.attempt_cases reading with ⟨now, next, stamp, _, _, response, commit⟩ | ⟨none, rules, same⟩
  · rw [commit]
    exact Stamp.Climb.single (Rules.mark_le_of_commit response) (Rules.lt_mark_of_commit response)
  · rw [none, mark, mark, rules, same]
    exact Stamp.Climb.nil (Nat.le_refl _)

theorem answers_cons (g : LockedGenerator) (reading : Reading) (rest : List Reading) :
    g.answers (reading :: rest) = (g.attempt reading).1 :: (g.attempt reading).2.answers rest :=
  rfl

theorem after_cons (g : LockedGenerator) (reading : Reading) (rest : List Reading) :
    g.after (reading :: rest) = (g.attempt reading).2.after rest :=
  rfl

/-- The stamps of a history ascend between the marks at its ends. -/
theorem history_climb (g : LockedGenerator) (readings : List Reading) :
    Stamp.Climb g.mark (Answer.stamps (g.answers readings)) (g.after readings).mark := by
  induction readings generalizing g with
  | nil => exact Stamp.Climb.nil (Nat.le_refl _)
  | cons reading rest ih =>
    rw [answers_cons, after_cons, Answer.stamps_cons]
    exact (g.attempt_climb reading).append (ih (g.attempt reading).2)

/-- Whatever the clock shows, the stamps of a generator increase strictly, and all of them
are greater than the stamp after which it goes on. The order of stamps is that of their
numbers. -/
theorem stamps_increase {c : Config} {worker : Int} {r : Rules}
    (accepted : Rules.ofConfig c worker = .ok r) :
    (∃ g, ofConfig c worker = .ok g ∧ ∀ readings,
      (Answer.stamps (g.answers readings)).Pairwise (· < ·) ∧
        (Answer.stamps (g.answers readings)).Nodup) ∧
    ∀ timestamp sequence, timestamp ≤ r.layout.maxTimestamp → sequence ≤ r.layout.maxSequence →
      ∃ g last, restore c worker timestamp sequence = .ok g ∧
        r.layout.encode ⟨timestamp, r.machine, sequence⟩ = .ok last ∧ ∀ readings,
          (Answer.stamps (g.answers readings)).Pairwise (· < ·) ∧
            (Answer.stamps (g.answers readings)).Nodup ∧
              ∀ s ∈ Answer.stamps (g.answers readings), last < s := by
  constructor
  · refine ⟨⟨r, .fresh, false⟩, (startAt_eq_ok_iff c worker .fresh _).mpr
      ⟨r, accepted, trivial, rfl⟩, ?_⟩
    intro readings
    have climb := history_climb ⟨r, .fresh, false⟩ readings
    exact ⟨climb.increasing, Stamp.nodup_of_increasing climb.increasing⟩
  · intro timestamp sequence ht hs
    have fits : r.layout.Fits ⟨timestamp, r.machine, sequence⟩ :=
      ⟨ht, Rules.machine_le accepted, hs⟩
    refine ⟨⟨r, .issued timestamp sequence, false⟩, _,
      (startAt_eq_ok_iff c worker (.issued timestamp sequence) _).mpr
        ⟨r, accepted, ⟨ht, hs⟩, rfl⟩,
      (Layout.encode_eq_ok_iff ..).mpr ⟨fits, rfl⟩, ?_⟩
    intro readings
    have climb := history_climb ⟨r, .issued timestamp sequence, false⟩ readings
    refine ⟨climb.increasing, Stamp.nodup_of_increasing climb.increasing, ?_⟩
    intro s issued
    rw [Stamp.lt_iff_toNat_lt, Layout.pack_toNat fits]
    exact Nat.lt_of_lt_of_le (Rules.value_lt_mark fits) (climb.bounds s issued).1

/-- After the last sequence of a tick, while the clock falls back and then repeats itself. -/
theorem stamps_increase_past_full_tick :
    ∃ g last, restore {} 7 5 4095 = .ok g ∧ Layout.standard.encode ⟨5, 7, 4095⟩ = .ok last ∧
      let stamps := Answer.stamps (g.answers [.shows 5, .shows 4, .shows 6, .shows 6])
      stamps.length = 2 ∧ stamps.Pairwise (· < ·) ∧ ∀ s ∈ stamps, last < s := by
  have accepted : Rules.ofConfig {} 7 = .ok ⟨.standard, 7, default, default⟩ := rfl
  obtain ⟨g, last, begun, coded, increase⟩ :=
    (stamps_increase accepted).2 5 4095 (by decide) (by decide)
  have issued : (Answer.stamps (g.answers [.shows 5, .shows 4, .shows 6, .shows 6])).length = 2 := by
    cases begun
    rfl
  exact ⟨g, last, begun, coded, issued, (increase _).1, (increase _).2.2⟩

end LockedGenerator
end Tickstamp
