import Tickstamp.Proofs.Issue.Lag
import Tickstamp.Proofs.Issue.Restart
import Tickstamp.Proofs.Issue.Threshold
import Tickstamp.Proofs.Moment

/-!
# What a poll comes to

A reading beyond the layout is refused, one behind the last stamp is left to the
lag policy, a used-up tick lets the caller wait for the next, and every other
reading is answered with a stamp. The rules advance first and only then look
whether the fields fit, but neither the machine nor the sequence can fail to:
the machine was checked with the configuration, and no advance passes the last
sequence. Which sequence a stamp gets is not said here.
-/

namespace Tickstamp

/-- The policy lets a caller wait for a clock that is behind by so much. -/
def LagPolicy.Tolerates (drift : UInt64) : LagPolicy → Prop
  | .wait limit => drift ≤ limit
  | .fail => False

theorem LagPolicy.answer_of_tolerates {lag : LagPolicy} {drift : UInt64}
    (tolerated : lag.Tolerates drift) : lag.answer drift = .pending drift := by
  cases lag with
  | wait limit => exact (answer_wait_eq_pending_iff limit drift).mpr tolerated
  | fail => cases tolerated

theorem LagPolicy.answer_of_not_tolerates {lag : LagPolicy} {drift : UInt64}
    (excessive : ¬ lag.Tolerates drift) : lag.answer drift = .refused (.clockBehind drift) := by
  cases lag with
  | fail => rfl
  | wait limit =>
    rcases (wait limit).answer_cases drift with refused | pending
    · exact refused
    · exact absurd ((answer_wait_eq_pending_iff limit drift).mp pending) excessive

/-- Nothing stands against a stamp: the clock is not behind, and the tick is not used up. -/
def Progress.OpenAt (p : Progress) (l : Layout) (now : UInt64) : Prop :=
  ∀ timestamp sequence, p = .issued timestamp sequence →
    ¬ now < timestamp ∧ ¬ (now = timestamp ∧ sequence = l.maxSequence)

/-- A reading that is not open is behind the last stamp, or in a tick that is used up. -/
theorem Progress.not_openAt {p : Progress} {l : Layout} {now : UInt64} (shut : ¬ p.OpenAt l now) :
    (∃ timestamp sequence, p = .issued timestamp sequence ∧ now < timestamp) ∨
      p = .issued now l.maxSequence := by
  cases p with
  | fresh => exact absurd (by rintro _ _ ⟨⟩) shut
  | issued timestamp sequence =>
    by_cases behind : now < timestamp
    · exact Or.inl ⟨timestamp, sequence, rfl, behind⟩
    · by_cases full : now = timestamp ∧ sequence = l.maxSequence
      · obtain ⟨rfl, rfl⟩ := full
        exact Or.inr rfl
      · refine absurd ?_ shut
        rintro _ _ ⟨⟩
        exact ⟨behind, full⟩

namespace Rules

/-- Rules whose machine and carry-over suit their layout. -/
structure Suited (r : Rules) : Prop where
  machine : r.machine ≤ r.layout.maxMachine
  carryOver : r.carryOver.validate r.layout = .ok ()

theorem suited_of_ofConfig {c : Config} {worker : Int} {r : Rules}
    (accepted : Rules.ofConfig c worker = .ok r) : r.Suited := by
  obtain ⟨valid, _, layout, _, carryOver⟩ := (ofConfig_eq_ok_iff ..).mp accepted
  refine ⟨machine_le accepted, ?_⟩
  rw [layout, carryOver]
  exact (c.validate_eq_ok_iff.mp valid).2.2

theorem respond_of_behind (r : Rules) {now timestamp : UInt64} (sequence : UInt64)
    (behind : now < timestamp) :
    r.respond (.issued timestamp sequence) now =
      (r.lag.waitFor (timestamp - now)).map .wait := by
  simp [respond, Progress.advance, behind]

theorem respond_of_usedUp (r : Rules) (now : UInt64) :
    r.respond (.issued now r.layout.maxSequence) now = .ok (.wait 1) := by
  have irrefl (w : UInt64) : ¬ w < w := UInt64.lt_irrefl w
  simp [respond, Progress.advance, irrefl]

theorem respond_ne_wait_zero (r : Rules) (p : Progress) (now : UInt64) :
    r.respond p now ≠ .ok (.wait 0) := by
  by_cases reached : p.tick ≤ now
  · rcases r.respond_of_tick_le reached with ⟨_, _, commit⟩ | wait | ⟨_, _, _, refused⟩
    · simp [commit]
    · simp [wait]
    · simp [refused]
  · cases p with
    | fresh => exact absurd UInt64.zero_le reached
    | issued timestamp sequence =>
      have behind : now < timestamp := UInt64.not_le.mp reached
      have drift : timestamp - now ≠ 0 := by
        have less := UInt64.lt_iff_toNat_lt.mp behind
        rw [Ne, ← UInt64.toNat_inj, UInt64.toNat_sub_of_le _ _ (UInt64.le_of_lt behind),
          UInt64.toNat_zero]
        omega
      intro waits
      rw [r.respond_of_behind sequence behind] at waits
      have told : r.lag.answer (timestamp - now) = .pending 0 := congrArg Answer.ofResponse waits
      rcases r.lag.answer_cases (timestamp - now) with refused | pending
      · cases refused.symm.trans told
      · exact drift (Answer.pending.inj (pending.symm.trans told))

theorem exists_issue {r : Rules} (suited : r.Suited) {p : Progress} (within : p.Within r.layout)
    {now : UInt64} (isOpen : p.OpenAt r.layout now) :
    ∃ sequence, sequence ≤ r.layout.maxSequence ∧
      p.advance now r.layout.maxSequence r.carryOver = .issue now sequence := by
  cases p with
  | fresh => exact ⟨0, UInt64.zero_le, rfl⟩
  | issued last used =>
    obtain ⟨notBehind, room⟩ := isOpen last used rfl
    by_cases later : last < now
    · exact ⟨_, CarryOver.start_le suited.carryOver used,
        (Progress.advance_issued_eq_issue_iff ..).mpr ⟨rfl, Or.inr ⟨later, rfl⟩⟩⟩
    · have same : last = now := UInt64.le_antisymm (UInt64.not_lt.mp notBehind)
        (UInt64.not_lt.mp later)
      have less : used < r.layout.maxSequence := by
        rcases UInt64.lt_or_eq_of_le within.2 with less | full
        · exact less
        · exact absurd ⟨same.symm, full⟩ room
      refine ⟨used + 1, ?_,
        (Progress.advance_issued_eq_issue_iff ..).mpr ⟨rfl, Or.inl ⟨same, less, rfl⟩⟩⟩
      rw [UInt64.le_iff_toNat_le, toNat_add_one_of_lt less]
      exact UInt64.lt_iff_toNat_lt.mp less

theorem respond_of_beyond {r : Rules} (suited : r.Suited) {p : Progress}
    (within : p.Within r.layout) {now : UInt64} (beyond : r.layout.maxTimestamp < now) :
    r.respond p now = .error (.fieldTooLarge .timestamp now r.layout.maxTimestamp) := by
  have isOpen : p.OpenAt r.layout now := by
    rintro timestamp sequence rfl
    have later := UInt64.lt_of_le_of_lt within.1 beyond
    refine ⟨UInt64.lt_asymm later, ?_⟩
    rintro ⟨rfl, _⟩
    exact UInt64.lt_irrefl _ later
  obtain ⟨sequence, _, issue⟩ := exists_issue suited within isOpen
  have large : ¬ now ≤ r.layout.maxTimestamp := UInt64.not_le.mpr beyond
  simp [respond, issue, Layout.encode, Layout.check, large, bind, Except.bind, Except.map]

theorem exists_commit {r : Rules} (suited : r.Suited) {p : Progress} (within : p.Within r.layout)
    {now : UInt64} (inside : now ≤ r.layout.maxTimestamp) (isOpen : p.OpenAt r.layout now) :
    ∃ sequence stamp, sequence ≤ r.layout.maxSequence ∧
      r.layout.encode ⟨now, r.machine, sequence⟩ = .ok stamp ∧
        r.respond p now = .ok (.commit (.issued now sequence) stamp) := by
  obtain ⟨sequence, low, issue⟩ := exists_issue suited within isOpen
  have fits : r.layout.Fits ⟨now, r.machine, sequence⟩ := ⟨inside, suited.machine, low⟩
  exact ⟨sequence, _, low, (Layout.encode_eq_ok_iff ..).mpr ⟨fits, rfl⟩,
    (respond_eq_commit_iff ..).mpr ⟨sequence, issue, fits, rfl, rfl⟩⟩

/-- The polls of a generator with these rules and this progress are settled by the reading: each
gives the answer and the progress after it. The four cases exclude each other, and there is no
fifth. -/
structure Settles (r : Rules) (p : Progress) (poll : UInt64 → Answer × Progress) : Prop where
  /-- Either nothing has been issued, or the layout has room for what was issued last. -/
  within : p = .fresh ∨ ∃ timestamp sequence, p = .issued timestamp sequence ∧
    timestamp ≤ r.layout.maxTimestamp ∧ sequence ≤ r.layout.maxSequence
  beyond : ∀ now, r.layout.maxTimestamp < now →
    poll now = (.refused (.fieldTooLarge .timestamp now r.layout.maxTimestamp), p)
  behind : ∀ now timestamp sequence, now ≤ r.layout.maxTimestamp →
    p = .issued timestamp sequence → now < timestamp →
      (r.lag.Tolerates (timestamp - now) → poll now = (.pending (timestamp - now), p)) ∧
      (¬ r.lag.Tolerates (timestamp - now) →
        poll now = (.refused (.clockBehind (timestamp - now)), p))
  usedUp : ∀ now, now ≤ r.layout.maxTimestamp → p = .issued now r.layout.maxSequence →
    poll now = (.pending 1, p)
  ready : ∀ now, now ≤ r.layout.maxTimestamp → p.OpenAt r.layout now →
    ∃ sequence stamp, sequence ≤ r.layout.maxSequence ∧
      r.layout.encode ⟨now, r.machine, sequence⟩ = .ok stamp ∧
        poll now = (.ready stamp, .issued now sequence)
  /-- No other fault is ever reported. -/
  faults : ∀ now fault, (poll now).1 = .refused fault →
    fault = .fieldTooLarge .timestamp now r.layout.maxTimestamp ∨
      ∃ drift, fault = .clockBehind drift
  /-- Nobody is told to wait for no time. -/
  waits : ∀ now, (poll now).1 ≠ .pending 0

/-- Rules that suit their layout settle all polls, from any progress within it. -/
theorem settles {r : Rules} (suited : r.Suited) {p : Progress} (within : p.Within r.layout) :
    r.Settles p fun now => (.ofResponse (r.respond p now), p.following (r.respond p now)) := by
  constructor
  case within =>
    cases p with
    | fresh => exact Or.inl rfl
    | issued timestamp sequence => exact Or.inr ⟨timestamp, sequence, rfl, within⟩
  case beyond =>
    intro now beyond
    simp only [respond_of_beyond suited within beyond]
    rfl
  case behind =>
    rintro now timestamp sequence _ rfl behind
    have still := Progress.following_of_stamp?_eq_none (r.lag.stamp?_answer (timestamp - now))
      (.issued timestamp sequence)
    simp only [r.respond_of_behind sequence behind, still]
    change _ ∧ _
    constructor
    · intro tolerated
      rw [← LagPolicy.answer_of_tolerates tolerated]
      rfl
    · intro excessive
      rw [← LagPolicy.answer_of_not_tolerates excessive]
      rfl
  case usedUp =>
    rintro now _ rfl
    simp only [respond_of_usedUp]
    rfl
  case ready =>
    intro now inside isOpen
    obtain ⟨sequence, stamp, low, coded, commit⟩ := exists_commit suited within inside isOpen
    refine ⟨sequence, stamp, low, coded, ?_⟩
    simp only [commit]
    rfl
  case faults =>
    intro now fault refused
    by_cases beyond : r.layout.maxTimestamp < now
    · left
      simp only [respond_of_beyond suited within beyond] at refused
      exact (Answer.refused.inj refused).symm
    · by_cases isOpen : p.OpenAt r.layout now
      · obtain ⟨_, _, _, _, commit⟩ :=
          exists_commit suited within (UInt64.not_lt.mp beyond) isOpen
        simp [commit, Answer.ofResponse] at refused
      · rcases Progress.not_openAt isOpen with ⟨timestamp, sequence, rfl, behind⟩ | rfl
        · right
          simp only [r.respond_of_behind sequence behind] at refused
          rcases r.lag.answer_cases (timestamp - now) with refusal | pending
          · exact ⟨_, (Answer.refused.inj (refusal.symm.trans refused)).symm⟩
          · cases pending.symm.trans refused
        · simp [respond_of_usedUp, Answer.ofResponse] at refused
  case waits =>
    intro now waits
    have nonzero := r.respond_ne_wait_zero p now
    cases response : r.respond p now with
    | error fault => simp [response, Answer.ofResponse] at waits
    | ok decision =>
      cases decision with
      | commit next stamp => simp [response, Answer.ofResponse] at waits
      | wait millis =>
        simp only [response, Answer.ofResponse, Answer.pending.injEq] at waits
        rw [response, waits] at nonzero
        exact nonzero rfl

end Rules
end Tickstamp
