import Mathlib.Data.Int.CardIntervalMod
import Tickstamp.Proofs.Capacity

/-!
# How sequences spread

Polled once in every tick, a generator goes one sequence further from tick to
tick, up to the threshold and then from zero again. A modulus that divides the
length of this round, and the range of sequences as well, takes the remainder of
the whole stamp from its place in the round, so that every remainder comes up
equally often. With more than one poll in a tick the round can be passed, and of
that nothing is said here.
-/

namespace Tickstamp

theorem CarryOver.toNat_start_of_le {carryOver : CarryOver} {l : Layout} {previous : UInt64}
    (low : previous.toNat ≤ carryOver.threshold l) :
    (carryOver.start previous l.maxSequence).toNat =
      (previous.toNat + 1) % (carryOver.threshold l + 1) := by
  rw [toNat_start]
  split
  · rename_i reached
    rw [Nat.le_antisymm low reached, Nat.mod_self]
  · rename_i short
    rw [Nat.mod_eq_of_lt (by omega)]

theorem Rules.answers_of_increasing {r : Rules} (suited : r.Suited) {readings : List UInt64}
    (increasing : readings.Pairwise (· < ·))
    (inside : ∀ now ∈ readings, now ≤ r.layout.maxTimestamp) {p : Progress}
    (before : ∀ now ∈ readings, p.Before now) {turn : Nat}
    (begins : (p.opening r.layout r.carryOver).toNat =
      turn % (r.carryOver.threshold r.layout + 1)) :
    ∃ stamps : List Stamp, r.answers p readings = stamps.map .ready ∧
      stamps.map (fun s => (r.layout.decode s).timestamp) = readings ∧
      stamps.map (fun s => (r.layout.decode s).sequence.toNat) =
        (List.range' turn readings.length).map (· % (r.carryOver.threshold r.layout + 1)) := by
  induction readings generalizing p turn with
  | nil => exact ⟨[], rfl, rfl, rfl⟩
  | cons now rest ih =>
    obtain ⟨later, increasing⟩ := List.pairwise_cons.mp increasing
    obtain ⟨here, inside⟩ := List.forall_mem_cons.mp inside
    have low := p.opening_le_threshold r.layout r.carryOver
    have first := respond_of_before suited here (before now List.mem_cons_self)
    generalize p.opening r.layout r.carryOver = opening at begins low first
    have onward : ∀ next ∈ rest, (Progress.issued now opening).Before next := by
      rintro next given _ _ ⟨⟩
      exact later next given
    have continues : ((Progress.issued now opening).opening r.layout r.carryOver).toNat =
        (turn + 1) % (r.carryOver.threshold r.layout + 1) := by
      rw [Progress.opening, CarryOver.toNat_start_of_le low, begins, Nat.mod_add_mod]
    obtain ⟨stamps, answers, ticks, round⟩ := ih increasing inside onward continues
    have fits : r.layout.Fits ⟨now, r.machine, opening⟩ :=
      ⟨here, suited.machine, UInt64.le_iff_toNat_le.mpr
        (Nat.le_trans low (CarryOver.threshold_le suited.carryOver))⟩
    refine ⟨r.layout.pack ⟨now, r.machine, opening⟩ :: stamps, ?_, ?_, ?_⟩
    · rw [Rules.answers, first]
      exact congrArg (Answer.ready _ :: ·) answers
    · rw [List.map_cons, ticks, Layout.decode_pack fits]
    · rw [List.map_cons, round, Layout.decode_pack fits, begins, List.length_cons,
        List.range'_succ, List.map_cons]

/-- Among the numbers below any bound, two remainders come up equally often, give or take one. -/
theorem count_modEq_le_succ {m : Nat} (positive : 0 < m) (bound a b : Nat) :
    bound.count (· ≡ a [MOD m]) ≤ bound.count (· ≡ b [MOD m]) + 1 := by
  rw [Nat.count_modEq_card bound positive, Nat.count_modEq_card bound positive]
  split <;> split <;> omega

/-- Stamps of these ticks whose sequences go round, and whose remainders therefore come up equally
often, give or take one. -/
structure Spread (l : Layout) (threshold : Nat) (readings : List UInt64) (stamps : List Stamp) :
    Prop where
  ticks : stamps.map (fun s => (l.decode s).timestamp) = readings
  round : stamps.map (fun s => (l.decode s).sequence.toNat) =
    (List.range readings.length).map (· % (threshold + 1))
  even : ∀ m, m ∣ threshold + 1 → m ∣ 2 ^ l.sequenceBits → ∀ a < m, ∀ b < m,
    stamps.countP (fun s => s.word.toNat % m = a) ≤
      stamps.countP (fun s => s.word.toNat % m = b) + 1

/-- A modulus that divides the round and the range of sequences leaves of a stamp the remainder of
its place. -/
theorem map_mod_of_round {l : Layout} {threshold length m : Nat} {stamps : List Stamp}
    (round : stamps.map (fun s => (l.decode s).sequence.toNat) =
      (List.range length).map (· % (threshold + 1)))
    (divides : m ∣ threshold + 1) (range : m ∣ 2 ^ l.sequenceBits) :
    stamps.map (fun s => s.word.toNat % m) = (List.range length).map (· % m) := by
  have remainders := congrArg (List.map (· % m)) round
  rw [List.map_map, List.map_map] at remainders
  calc stamps.map (fun s => s.word.toNat % m)
      = stamps.map ((· % m) ∘ fun s => (l.decode s).sequence.toNat) := by
        apply List.map_congr_left
        intro s _
        rw [Function.comp_apply, l.decode_sequence_toNat, Nat.mod_mod_of_dvd _ range]
    _ = (List.range length).map ((· % m) ∘ (· % (threshold + 1))) := remainders
    _ = (List.range length).map (· % m) := by
        apply List.map_congr_left
        intro place _
        exact Nat.mod_mod_of_dvd place divides

theorem spread_of_round {l : Layout} {threshold : Nat} {readings : List UInt64}
    {stamps : List Stamp} (ticks : stamps.map (fun s => (l.decode s).timestamp) = readings)
    (round : stamps.map (fun s => (l.decode s).sequence.toNat) =
      (List.range readings.length).map (· % (threshold + 1))) :
    Spread l threshold readings stamps := by
  refine ⟨ticks, round, ?_⟩
  intro m divides range a small b small'
  have remainders := map_mod_of_round round divides range
  have counted {x : Nat} (less : x < m) : stamps.countP (fun s => s.word.toNat % m = x) =
      readings.length.count (· ≡ x [MOD m]) := by
    have same : stamps.countP (fun s => s.word.toNat % m = x) =
        (stamps.map (fun s => s.word.toNat % m)).countP (· = x) := by
      rw [List.countP_map]
      rfl
    rw [same, remainders, List.countP_map, Nat.count]
    simp only [Nat.ModEq, Nat.mod_eq_of_lt less]
    rfl
  rw [counted small, counted small']
  exact count_modEq_le_succ (Nat.zero_lt_of_lt small) readings.length a b

/-- Polled at increasing readings within the layout, one in each tick, a fresh generator of either
kind gets a stamp at each of them. Their sequences go round from zero to the threshold, and so, for
every modulus that divides the length of the round and the range of sequences, no remainder of the
stamps comes up more than once more often than another. -/
theorem sparse_stamps_spread {c : Config} {worker : Int} {r : Rules}
    (accepted : Rules.ofConfig c worker = .ok r) {readings : List UInt64}
    (increasing : readings.Pairwise (· < ·))
    (inside : ∀ now ∈ readings, now ≤ c.layout.maxTimestamp) :
    ∃ stamps, Spread c.layout (c.carryOver.threshold c.layout) readings stamps ∧
      (∃ g, LockedGenerator.ofConfig c worker = .ok g ∧
        g.answers (readings.map .shows) = stamps.map .ready) ∧
      ∃ w, WordGenerator.ofConfig c worker = .ok w ∧
        w.answers (readings.map .shows) = stamps.map .ready := by
  have locked : LockedGenerator.startAt c worker .fresh = .ok ⟨r, .fresh, false⟩ :=
    (LockedGenerator.startAt_eq_ok_iff ..).mpr ⟨r, accepted, trivial, rfl⟩
  have stands := (LockedGenerator.Reachable.polled locked [] rfl).stands
  have word := WordGenerator.startAt_eq_map c worker .fresh
  rw [locked] at word
  obtain ⟨_, same, mirrors⟩ := WordGenerator.mirrors_of_startAt word
  cases locked.symm.trans same
  rw [← Rules.layout_eq accepted] at inside
  have zero : (Progress.fresh.opening r.layout r.carryOver).toNat =
      0 % (r.carryOver.threshold r.layout + 1) := (Nat.zero_mod _).symm
  obtain ⟨stamps, answers, ticks, round⟩ := Rules.answers_of_increasing stands.suited increasing
    inside (p := .fresh) (by rintro _ _ _ _ ⟨⟩) zero
  have spread := spread_of_round ticks (by rw [round, List.range_eq_range'])
  rw [stands.layout, stands.carryOver] at spread
  exact ⟨stamps, spread, ⟨_, locked, (LockedGenerator.answers_shows rfl readings).trans answers⟩,
    _, word, (mirrors.answers_shows readings).trans answers⟩

/-- A round of four sequences, begun a second time; no remainder modulo four is two ahead. -/
theorem sparse_stamps_spread_over_rounds :
    ∃ stamps, Spread .standard 3 [1, 2, 5, 6, 9] stamps ∧
      stamps.map (fun s => (Layout.standard.decode s).sequence.toNat) = [0, 1, 2, 3, 0] ∧
      stamps.countP (fun s => s.word.toNat % 4 = 0) ≤
        stamps.countP (fun s => s.word.toNat % 4 = 1) + 1 := by
  have accepted : Rules.ofConfig { carryOver := .upTo 3 } 1 = .ok _ := rfl
  have increasing : List.Pairwise (· < ·) ([1, 2, 5, 6, 9] : List UInt64) := by decide
  have inside : ([1, 2, 5, 6, 9] : List UInt64).all (· ≤ Layout.standard.maxTimestamp) := by
    decide
  simp only [List.all_eq_true, decide_eq_true_eq] at inside
  obtain ⟨stamps, spread, -, -⟩ := sparse_stamps_spread accepted increasing inside
  exact ⟨stamps, spread, spread.round,
    spread.even 4 (by decide) (by decide) 0 (by decide) 1 (by decide)⟩

end Tickstamp
