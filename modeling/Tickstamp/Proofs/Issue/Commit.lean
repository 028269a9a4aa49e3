import Tickstamp.Issue.History
import Tickstamp.Proofs.Packing

/-!
# What a commit says

A response that commits is inverted once: the progress before it, the reading
and the rules determine the stamp, and the stamp has fields that fit. The moves
of both kinds of generator are then one commit or no change of progress. Which
refusal or wait answers a poll that does not commit is not a matter of this
module.
-/

namespace Tickstamp

/-- Progress that the layout has room for. -/
def Progress.Within (p : Progress) (l : Layout) : Prop :=
  match p with
  | .fresh => True
  | .issued timestamp sequence => timestamp ≤ l.maxTimestamp ∧ sequence ≤ l.maxSequence

/-- After a stamp, a reading allows another in the same tick while sequences are left, and
one in every later tick. -/
theorem Progress.advance_issued_eq_issue_iff (last used now maxSequence : UInt64)
    (carryOver : CarryOver) (timestamp sequence : UInt64) :
    (issued last used).advance now maxSequence carryOver = .issue timestamp sequence ↔
      timestamp = now ∧ (last = now ∧ used < maxSequence ∧ sequence = used + 1 ∨
        last < now ∧ sequence = carryOver.start used maxSequence) := by
  rcases Nat.lt_trichotomy now.toNat last.toNat with behind | same | later
  · have lt : now < last := UInt64.lt_iff_toNat_lt.mpr behind
    have ne : last ≠ now := by rintro rfl; omega
    have ge : ¬ last < now := by rw [UInt64.lt_iff_toNat_lt]; omega
    simp [advance, lt, ne, ge]
  · obtain rfl := UInt64.toNat_inj.mp same
    have irrefl : ¬ now < now := by rw [UInt64.lt_iff_toNat_lt]; omega
    by_cases room : used < maxSequence
    · simp [advance, irrefl, room, eq_comm]
    · simp [advance, irrefl, room]
  · have lt : last < now := UInt64.lt_iff_toNat_lt.mpr later
    have ne : last ≠ now := by rintro rfl; omega
    have ge : ¬ now < last := by rw [UInt64.lt_iff_toNat_lt]; omega
    simp [advance, lt, ne, ge, eq_comm]

theorem Progress.timestamp_of_advance {p : Progress} {now maxSequence : UInt64}
    {carryOver : CarryOver} {timestamp sequence : UInt64}
    (h : p.advance now maxSequence carryOver = .issue timestamp sequence) : timestamp = now := by
  cases p with
  | fresh =>
    cases h
    rfl
  | issued last used => exact ((advance_issued_eq_issue_iff ..).mp h).1

/-- A commit issues what the progress allows, provided that it fits. -/
theorem Rules.respond_eq_commit_iff (r : Rules) (p next : Progress) (now : UInt64)
    (stamp : Stamp) :
    r.respond p now = .ok (.commit next stamp) ↔
      ∃ sequence, p.advance now r.layout.maxSequence r.carryOver = .issue now sequence ∧
        r.layout.Fits ⟨now, r.machine, sequence⟩ ∧ next = .issued now sequence ∧
          stamp = r.layout.pack ⟨now, r.machine, sequence⟩ := by
  rw [respond]
  constructor
  · intro h
    split at h
    · rename_i timestamp sequence issue
      obtain rfl := Progress.timestamp_of_advance issue
      cases encoded : r.layout.encode ⟨timestamp, r.machine, sequence⟩ with
      | error fault => rw [encoded] at h; cases h
      | ok s =>
        obtain ⟨fits, rfl⟩ := (Layout.encode_eq_ok_iff ..).mp encoded
        rw [encoded] at h
        cases h
        exact ⟨sequence, issue, fits, rfl, rfl⟩
    · cases h
    · rename_i drift behind
      cases tolerated : r.lag.waitFor drift <;> rw [tolerated] at h <;> cases h
  · rintro ⟨sequence, issue, fits, rfl, rfl⟩
    simp only [issue, (Layout.encode_eq_ok_iff ..).mpr ⟨fits, rfl⟩, Except.map]

theorem Rules.machine_of_commit {r : Rules} {p next : Progress} {now : UInt64} {stamp : Stamp}
    (h : r.respond p now = .ok (.commit next stamp)) :
    (r.layout.decode stamp).machine = r.machine := by
  obtain ⟨sequence, _, fits, _, rfl⟩ := (respond_eq_commit_iff ..).mp h
  rw [Layout.decode_pack fits]

theorem Rules.within_of_commit {r : Rules} {p next : Progress} {now : UInt64} {stamp : Stamp}
    (h : r.respond p now = .ok (.commit next stamp)) : next.Within r.layout := by
  obtain ⟨sequence, _, fits, rfl, _⟩ := (respond_eq_commit_iff ..).mp h
  exact ⟨fits.timestamp, fits.sequence⟩

/-- A configuration and a worker make rules exactly if the configuration is valid and the
layout has that machine. -/
theorem Rules.ofConfig_eq_ok_iff (c : Config) (worker : Int) (r : Rules) :
    Rules.ofConfig c worker = .ok r ↔
      c.validate = .ok () ∧ c.layout.machineOf worker = .ok r.machine ∧
        r.layout = c.layout ∧ r.lag = c.lag ∧ r.carryOver = c.carryOver := by
  simp only [Rules.ofConfig, Fault.bind_eq_ok_iff]
  constructor
  · rintro ⟨⟨⟩, valid, machine, known, made⟩
    cases made
    exact ⟨valid, known, rfl, rfl, rfl⟩
  · rintro ⟨valid, known, layout, lag, carryOver⟩
    refine ⟨(), valid, r.machine, known, ?_⟩
    cases r
    simp only at layout lag carryOver
    subst layout lag carryOver
    rfl

theorem Rules.layout_eq {c : Config} {worker : Int} {r : Rules}
    (h : Rules.ofConfig c worker = .ok r) : r.layout = c.layout :=
  ((ofConfig_eq_ok_iff ..).mp h).2.2.1

/-- Under a valid configuration it depends on the worker alone whether there are rules. -/
theorem Rules.ofConfig_of_valid {c : Config} (valid : c.validate = .ok ()) (worker : Int) :
    Rules.ofConfig c worker = (c.layout.machineOf worker).map fun machine =>
      ⟨c.layout, machine, c.lag, c.carryOver⟩ := by
  rw [ofConfig, valid]
  cases c.layout.machineOf worker <;> rfl

theorem Layout.machineOf_eq_ok_iff (l : Layout) (worker : Int) (machine : UInt64) :
    l.machineOf worker = .ok machine ↔ worker = machine.toNat ∧ machine ≤ l.maxMachine := by
  have word := l.maxMachine.toNat_lt
  rw [machineOf, UInt64.le_iff_toNat_le]
  constructor
  · intro h
    split at h
    · rename_i range
      cases h
      rw [UInt64.toNat_ofNat']
      omega
    · cases h
  · rintro ⟨rfl, fits⟩
    rw [if_pos (by omega), Int.toNat_natCast, UInt64.ofNat_toNat]

theorem Layout.machineOf_le {l : Layout} {worker : Int} {machine : UInt64}
    (h : l.machineOf worker = .ok machine) : machine ≤ l.maxMachine :=
  ((l.machineOf_eq_ok_iff worker machine).mp h).2

theorem Rules.machine_le {c : Config} {worker : Int} {r : Rules}
    (h : Rules.ofConfig c worker = .ok r) : r.machine ≤ r.layout.maxMachine := by
  rw [layout_eq h]
  exact Layout.machineOf_le ((ofConfig_eq_ok_iff ..).mp h).2.1

/-- A generator can go on after every stamp that its rules can issue, and after no other. -/
theorem Rules.restore_eq_ok_iff {r : Rules} (machine : r.machine ≤ r.layout.maxMachine)
    (timestamp sequence : UInt64) (p : Progress) :
    r.restore timestamp sequence = .ok p ↔
      p = .issued timestamp sequence ∧ p.Within r.layout := by
  simp only [restore, Fault.bind_eq_ok_iff, Layout.encode_eq_ok_iff]
  constructor
  · rintro ⟨_, ⟨fits, _⟩, made⟩
    cases made
    exact ⟨rfl, fits.timestamp, fits.sequence⟩
  · rintro ⟨rfl, ht, hs⟩
    exact ⟨_, ⟨⟨ht, machine, hs⟩, rfl⟩, rfl⟩

namespace LockedGenerator

/-- A locked generator that begins with this progress. -/
def startAt (c : Config) (worker : Int) : Progress → Except Fault LockedGenerator
  | .fresh => ofConfig c worker
  | .issued timestamp sequence => restore c worker timestamp sequence

theorem startAt_eq_ok_iff (c : Config) (worker : Int) (p : Progress) (g : LockedGenerator) :
    startAt c worker p = .ok g ↔
      ∃ r, Rules.ofConfig c worker = .ok r ∧ p.Within r.layout ∧ g = ⟨r, p, false⟩ := by
  cases p with
  | fresh =>
    simp only [startAt, ofConfig, Fault.bind_eq_ok_iff]
    constructor
    · rintro ⟨r, accepted, made⟩
      cases made
      exact ⟨r, accepted, trivial, rfl⟩
    · rintro ⟨r, accepted, _, rfl⟩
      exact ⟨r, accepted, rfl⟩
  | issued timestamp sequence =>
    simp only [startAt, restore, Fault.bind_eq_ok_iff]
    constructor
    · rintro ⟨r, accepted, p, restored, made⟩
      obtain ⟨rfl, within⟩ := (Rules.restore_eq_ok_iff (Rules.machine_le accepted) ..).mp restored
      cases made
      exact ⟨r, accepted, within, rfl⟩
    · rintro ⟨r, accepted, within, rfl⟩
      exact ⟨r, accepted, _,
        (Rules.restore_eq_ok_iff (Rules.machine_le accepted) ..).mpr ⟨rfl, within⟩, rfl⟩

theorem accepted_of_startAt {c : Config} {worker : Int} {p : Progress} {g : LockedGenerator}
    (begun : startAt c worker p = .ok g) : Rules.ofConfig c worker = .ok g.rules := by
  obtain ⟨r, accepted, _, rfl⟩ := (startAt_eq_ok_iff ..).mp begun
  exact accepted

/-- An attempt commits, or else it hands out nothing and leaves the progress alone. -/
theorem attempt_cases (g : LockedGenerator) (reading : Reading) :
    (∃ now next stamp, reading = .shows now ∧ g.poisoned = false ∧
      g.rules.respond g.progress now = .ok (.commit next stamp) ∧
        g.attempt reading = (.ready stamp, { g with progress := next })) ∨
      ((g.attempt reading).1.stamp? = none ∧ (g.attempt reading).2.rules = g.rules ∧
        (g.attempt reading).2.progress = g.progress) := by
  cases locked : g.poisoned with
  | true => exact Or.inr (by simp [attempt, locked, Answer.stamp?])
  | false =>
    cases reading with
    | breaksDown => exact Or.inr (by simp [attempt, locked, offer, Answer.stamp?])
    | shows now =>
      cases response : g.rules.respond g.progress now with
      | error fault => exact Or.inr (by simp [attempt, locked, offer, response, Answer.stamp?])
      | ok decision =>
        cases decision with
        | wait millis => exact Or.inr (by simp [attempt, locked, offer, response, Answer.stamp?])
        | commit next stamp =>
          refine Or.inl ⟨now, next, stamp, rfl, rfl, response, ?_⟩
          simp [attempt, locked, offer, response]

theorem committed_of_attempt {g : LockedGenerator} {reading : Reading} {s : Stamp}
    (issued : s ∈ (g.attempt reading).1.stamp?.toList) :
    ∃ p now next, g.rules.respond p now = .ok (.commit next s) := by
  rcases g.attempt_cases reading with ⟨now, next, stamp, _, _, response, commit⟩ | ⟨none, _, _⟩
  · rw [commit] at issued
    obtain rfl : s = stamp := by simpa [Answer.stamp?] using issued
    exact ⟨_, _, _, response⟩
  · rw [none] at issued
    cases issued

theorem attempt_rules (g : LockedGenerator) (reading : Reading) :
    (g.attempt reading).2.rules = g.rules := by
  rcases g.attempt_cases reading with ⟨_, _, _, _, _, _, commit⟩ | ⟨_, rules, _⟩
  · rw [commit]
  · exact rules

end LockedGenerator
end Tickstamp
