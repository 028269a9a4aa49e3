import Tickstamp.Proofs.Issue.Omission

/-!
# The lag policy hands out no stamp

A lag policy is asked in one case only: the clock is behind the tick of the last
stamp. Whatever it says then, nothing is issued and nothing changes. So
generators that differ in their policies alone stay so under the same readings,
and hand out the same stamps at the same polls. How long a caller who is told to
wait takes to poll again is not considered, since the readings are given.
-/

namespace Tickstamp

/-- What a poll is told when the clock is behind by `drift`. -/
def LagPolicy.answer (lag : LagPolicy) (drift : UInt64) : Answer :=
  .ofResponse ((lag.waitFor drift).map .wait)

namespace LagPolicy

/-- A policy can only refuse a clock that is behind, or wait for all that it is behind. -/
theorem answer_cases (lag : LagPolicy) (drift : UInt64) :
    lag.answer drift = .refused (.clockBehind drift) ∨ lag.answer drift = .pending drift := by
  cases lag with
  | fail => exact Or.inl rfl
  | wait limit =>
    by_cases tolerated : drift ≤ limit
    · right
      simp [answer, waitFor, tolerated, Answer.ofResponse, Except.map]
    · left
      simp [answer, waitFor, tolerated, Answer.ofResponse, Except.map]

theorem answer_wait_eq_pending_iff (limit drift : UInt64) :
    (wait limit).answer drift = .pending drift ↔ drift ≤ limit := by
  by_cases tolerated : drift ≤ limit
  · simp [answer, waitFor, tolerated, Answer.ofResponse, Except.map]
  · simp [answer, waitFor, tolerated, Answer.ofResponse, Except.map]

/-- With a larger limit a refusal may turn into a wait, and nothing else changes. -/
theorem answer_enlarged {limit larger : UInt64} (le : limit ≤ larger) (drift : UInt64) :
    (wait limit).answer drift = (wait larger).answer drift ∨
      (wait limit).answer drift = .refused (.clockBehind drift) ∧
        (wait larger).answer drift = .pending drift := by
  rcases (wait limit).answer_cases drift with refused | pending
  · rcases (wait larger).answer_cases drift with refused' | pending'
    · exact Or.inl (refused.trans refused'.symm)
    · exact Or.inr ⟨refused, pending'⟩
  · have within := (answer_wait_eq_pending_iff ..).mp pending
    have within' := (answer_wait_eq_pending_iff ..).mpr (UInt64.le_trans within le)
    exact Or.inl (pending.trans within'.symm)

theorem answer_wait_zero {drift : UInt64} (behind : 0 < drift) :
    (wait 0).answer drift = fail.answer drift := by
  rcases (wait 0).answer_cases drift with refused | pending
  · exact refused
  · have within := (answer_wait_eq_pending_iff ..).mp pending
    exact absurd behind (UInt64.not_lt.mpr within)

theorem stamp?_answer (lag : LagPolicy) (drift : UInt64) : (lag.answer drift).stamp? = none := by
  rcases lag.answer_cases drift with refused | pending
  · rw [refused]
    rfl
  · rw [pending]
    rfl

end LagPolicy

/-- The same rules with another lag policy. -/
def Rules.withLag (lag : LagPolicy) (r : Rules) : Rules :=
  { r with lag }

/-- The policy is asked about a clock behind the last stamp, and about nothing else. -/
theorem Rules.respond_withLag (r : Rules) (p : Progress) (now : UInt64) :
    (∃ response, ∀ lag, (r.withLag lag).respond p now = response) ∨
      ∃ timestamp sequence, p = .issued timestamp sequence ∧ now < timestamp ∧
        ∀ lag, (r.withLag lag).respond p now = (lag.waitFor (timestamp - now)).map .wait := by
  cases p with
  | fresh => exact Or.inl ⟨r.respond .fresh now, fun _ => rfl⟩
  | issued timestamp sequence =>
    by_cases behind : now < timestamp
    · refine Or.inr ⟨timestamp, sequence, rfl, behind, ?_⟩
      intro lag
      simp [respond, Progress.advance, behind, withLag]
    · refine Or.inl ⟨r.respond (.issued timestamp sequence) now, ?_⟩
      intro lag
      have reached : (Progress.issued timestamp sequence).tick ≤ now := UInt64.not_lt.mp behind
      rcases Progress.advance_of_tick_le reached r.layout.maxSequence r.carryOver with
        ⟨next, issue⟩ | full
      · simp [respond, withLag, issue]
      · simp [respond, withLag, full]

section
variable {γ : Type} {offer : γ → Reading → Answer × γ} {withLag : LagPolicy → γ → γ}
  {progress : γ → Progress}

/-- What one poll owes to the lag policy: nothing, or else an answer about a clock that is behind,
which changes nothing. -/
def PollDefers (offer : γ → Reading → Answer × γ) (withLag : LagPolicy → γ → γ)
    (progress : γ → Progress) (g : γ) (reading : Reading) : Prop :=
  (∃ answer after, ∀ lag, offer (withLag lag g) reading = (answer, withLag lag after)) ∨
    ∃ now timestamp sequence, reading = .shows now ∧
      (∀ lag, progress (withLag lag g) = .issued timestamp sequence) ∧ now < timestamp ∧
        ∀ lag, offer (withLag lag g) reading = (lag.answer (timestamp - now), withLag lag g)

theorem PollDefers.exists_after {g : γ} {reading : Reading}
    (defers : PollDefers offer withLag progress g reading) :
    ∃ after, ∀ lag, (offer (withLag lag g) reading).2 = withLag lag after := by
  rcases defers with ⟨answer, after, same⟩ | ⟨_, _, _, _, _, _, told⟩
  · refine ⟨after, ?_⟩
    intro lag
    rw [same lag]
  · refine ⟨g, ?_⟩
    intro lag
    rw [told lag]

theorem history_defers (step : ∀ g reading, PollDefers offer withLag progress g reading) (g : γ)
    {readings : List Reading} {k : Nat} (polled : k < readings.length) :
    (∃ answer, ∀ lag, (history offer (withLag lag g) readings).1[k]? = some answer) ∨
      ∃ now timestamp sequence, readings[k]? = some (.shows now) ∧
        (∀ lag, progress (history offer (withLag lag g) (readings.take k)).2 =
          .issued timestamp sequence) ∧ now < timestamp ∧
        ∀ lag, (history offer (withLag lag g) readings).1[k]? =
          some (lag.answer (timestamp - now)) := by
  induction readings generalizing g k with
  | nil => exact absurd polled (Nat.not_lt_zero k)
  | cons reading rest ih =>
    cases k with
    | zero =>
      rcases step g reading with
        ⟨answer, after, same⟩ | ⟨now, timestamp, sequence, rfl, last, lt, told⟩
      · refine Or.inl ⟨answer, ?_⟩
        intro lag
        simp [history, same lag]
      · refine Or.inr ⟨now, timestamp, sequence, rfl, last, lt, ?_⟩
        intro lag
        simp [history, told lag]
    | succ k =>
      -- the later polls start from generators that still differ in their policies alone
      obtain ⟨after, next⟩ := (step g reading).exists_after
      have later := ih after (Nat.lt_of_succ_lt_succ polled)
      simpa only [history_cons, next, List.getElem?_cons_succ, List.take_succ_cons] using later

/-- Generators that differ in their lag policies alone, when they are polled at these readings. -/
structure Unswayed (offer : γ → Reading → Answer × γ) (withLag : LagPolicy → γ → γ)
    (progress : γ → Progress) (g : γ) (readings : List Reading) : Prop where
  /-- At every poll they hand out the same stamp, or none of them hands out one. -/
  stamps : ∀ (lag lag' : LagPolicy) (k : Nat) (x : Stamp),
    (history offer (withLag lag g) readings).1[k]? = some (.ready x) ↔
      (history offer (withLag lag' g) readings).1[k]? = some (.ready x)
  /-- Only a clock that is behind the last stamp makes them answer differently. -/
  apart : ∀ (lag lag' : LagPolicy) (k : Nat) (answer answer' : Answer),
    (history offer (withLag lag g) readings).1[k]? = some answer →
      (history offer (withLag lag' g) readings).1[k]? = some answer' → answer ≠ answer' →
        ∃ now timestamp sequence, readings[k]? = some (.shows now) ∧
          progress (history offer (withLag lag g) (readings.take k)).2 =
            .issued timestamp sequence ∧
          progress (history offer (withLag lag' g) (readings.take k)).2 =
            .issued timestamp sequence ∧ now < timestamp ∧
          (answer = .refused (.clockBehind (timestamp - now)) ∨
            answer = .pending (timestamp - now)) ∧
          (answer' = .refused (.clockBehind (timestamp - now)) ∨
            answer' = .pending (timestamp - now))
  /-- A larger limit only turns refusals into waits. -/
  enlarged : ∀ (limit larger : UInt64), limit ≤ larger → ∀ (k : Nat) (answer answer' : Answer),
    (history offer (withLag (.wait limit) g) readings).1[k]? = some answer →
      (history offer (withLag (.wait larger) g) readings).1[k]? = some answer' →
        answer = answer' ∨
          ∃ drift, answer = .refused (.clockBehind drift) ∧ answer' = .pending drift
  /-- To wait for no time is to refuse. -/
  zero : (history offer (withLag (.wait 0) g) readings).1 =
    (history offer (withLag .fail g) readings).1

/-- It is enough that each poll defers to the policy as it may. -/
theorem unswayed_of_defers (step : ∀ g reading, PollDefers offer withLag progress g reading)
    (g : γ) (readings : List Reading) : Unswayed offer withLag progress g readings := by
  have answered {lag : LagPolicy} {k : Nat} {answer : Answer}
      (told : (history offer (withLag lag g) readings).1[k]? = some answer) :
      k < readings.length := by
    rw [← length_history offer (withLag lag g) readings]
    exact (List.getElem?_eq_some_iff.mp told).1
  refine ⟨?_, ?_, ?_, ?_⟩
  · have hands (lag lag' : LagPolicy) (k : Nat) (x : Stamp)
        (ready : (history offer (withLag lag g) readings).1[k]? = some (.ready x)) :
        (history offer (withLag lag' g) readings).1[k]? = some (.ready x) := by
      rcases history_defers step g (answered ready) with ⟨_, same⟩ | ⟨_, _, _, _, _, _, told⟩
      · rw [same lag', ← same lag, ready]
      · -- a policy never answers with a stamp
        have none := lag.stamp?_answer
        rw [told lag] at ready
        cases (Option.some.inj ready) ▸ none _
    intro lag lag' k x
    exact ⟨hands lag lag' k x, hands lag' lag k x⟩
  · intro lag lag' k answer answer' given given' differ
    rcases history_defers step g (answered given) with
      ⟨_, same⟩ | ⟨now, timestamp, sequence, shown, last, behind, told⟩
    · rw [same lag] at given
      rw [same lag'] at given'
      exact absurd (Option.some.inj (given.symm.trans given')) differ
    · rw [told lag] at given
      rw [told lag'] at given'
      cases given
      cases given'
      exact ⟨now, timestamp, sequence, shown, last lag, last lag', behind,
        lag.answer_cases _, lag'.answer_cases _⟩
  · intro limit larger le k answer answer' given given'
    rcases history_defers step g (answered given) with
      ⟨_, same⟩ | ⟨now, timestamp, _, _, _, _, told⟩
    · rw [same] at given given'
      exact Or.inl (Option.some.inj (given.symm.trans given'))
    · rw [told] at given given'
      cases given
      cases given'
      rcases LagPolicy.answer_enlarged le (timestamp - now) with same | turned
      · exact Or.inl same
      · exact Or.inr ⟨_, turned⟩
  · apply List.ext_getElem?
    intro k
    by_cases polled : k < readings.length
    · rcases history_defers step g polled with ⟨_, same⟩ | ⟨now, timestamp, _, _, _, behind, told⟩
      · rw [same, same]
      · have drift : 0 < timestamp - now := by
          have less := UInt64.lt_iff_toNat_lt.mp behind
          rw [UInt64.lt_iff_toNat_lt, UInt64.toNat_sub_of_le _ _ (UInt64.le_of_lt behind)]
          exact Nat.sub_pos_of_lt less
        rw [told, told, LagPolicy.answer_wait_zero drift]
    · have past := Nat.not_lt.mp polled
      rw [List.getElem?_eq_none (by rwa [length_history]),
        List.getElem?_eq_none (by rwa [length_history])]

end

namespace LockedGenerator

/-- The same generator under another lag policy. -/
def withLag (lag : LagPolicy) (g : LockedGenerator) : LockedGenerator :=
  { g with rules := g.rules.withLag lag }

theorem attempt_defers (g : LockedGenerator) (reading : Reading) :
    PollDefers attempt withLag progress g reading := by
  cases locked : g.poisoned with
  | true => exact Or.inl ⟨.refused .lockPoisoned, g, fun lag => by simp [attempt, withLag, locked]⟩
  | false =>
    cases reading with
    | breaksDown =>
      refine Or.inl ⟨.abandoned, { g with poisoned := true }, ?_⟩
      intro lag
      simp [attempt, withLag, locked, offer]
    | shows now =>
      have sound (lag : LagPolicy) : (g.withLag lag).poisoned = false := locked
      have shown (lag : LagPolicy) : (g.withLag lag).attempt (.shows now) =
          (.ofResponse ((g.rules.withLag lag).respond g.progress now),
            { g.withLag lag with
              progress := g.progress.following ((g.rules.withLag lag).respond g.progress now) }) :=
        attempt_shows (sound lag) now
      rcases g.rules.respond_withLag g.progress now with
        ⟨response, same⟩ | ⟨timestamp, sequence, last, behind, asked⟩
      · refine Or.inl ⟨.ofResponse response,
          { g with progress := g.progress.following response }, ?_⟩
        intro lag
        rw [shown, same]
        rfl
      · refine Or.inr ⟨now, timestamp, sequence, rfl, fun _ => last, behind, ?_⟩
        intro lag
        have still := Progress.following_of_stamp?_eq_none (lag.stamp?_answer (timestamp - now))
        rw [shown, asked, still]
        rfl

end LockedGenerator

namespace WordGenerator

/-- The same generator under another lag policy. -/
def withLag (lag : LagPolicy) (w : WordGenerator) : WordGenerator :=
  { w with rules := w.rules.withLag lag }

/-- The progress that the word stands for. -/
def progress (w : WordGenerator) : Progress :=
  .unpack w.word w.rules.layout.sequenceBits

theorem offer_defers (w : WordGenerator) (reading : Reading) :
    PollDefers offer withLag progress w reading := by
  cases reading with
  | breaksDown => exact Or.inl ⟨.abandoned, w, fun _ => rfl⟩
  | shows now =>
    rcases w.rules.respond_withLag w.progress now with
      ⟨response, same⟩ | ⟨timestamp, sequence, last, behind, asked⟩
    · left
      have decided (lag : LagPolicy) : decision (w.rules.withLag lag) w.word now = response :=
        same lag
      cases response with
      | error fault =>
        refine ⟨.refused fault, w, ?_⟩
        intro lag
        simp [offer, conclude, withLag, decided lag]
      | ok answer =>
        cases answer with
        | wait millis =>
          refine ⟨.pending millis, w, ?_⟩
          intro lag
          simp [offer, conclude, withLag, decided lag]
        | commit next stamp =>
          refine ⟨.ready stamp, { w with word := next.pack w.rules.layout.sequenceBits }, ?_⟩
          intro lag
          simp [offer, conclude, withLag, decided lag]
          rfl
    · refine Or.inr ⟨now, timestamp, sequence, rfl, fun _ => last, behind, ?_⟩
      intro lag
      have decided : decision (w.rules.withLag lag) w.word now =
          (lag.waitFor (timestamp - now)).map .wait := asked lag
      cases tolerated : lag.waitFor (timestamp - now) <;>
        simp [offer, conclude, withLag, decided, LagPolicy.answer, tolerated, Except.map,
          Answer.ofResponse]

end WordGenerator

theorem Rules.ofConfig_withLag (c : Config) (worker : Int) (lag : LagPolicy) :
    ofConfig { c with lag } worker = (ofConfig c worker).map (withLag lag) := by
  have valid : ({ c with lag } : Config).validate = c.validate := rfl
  rw [ofConfig, ofConfig, valid]
  cases c.validate with
  | error fault => rfl
  | ok _ =>
    change (c.layout.machineOf worker >>= _) = (c.layout.machineOf worker >>= _).map _
    cases c.layout.machineOf worker <;> rfl

theorem LockedGenerator.startAt_withLag (c : Config) (worker : Int) (start : Progress)
    (lag : LagPolicy) :
    startAt { c with lag } worker start = (startAt c worker start).map (withLag lag) := by
  cases start with
  | fresh =>
    rw [startAt, startAt, ofConfig, ofConfig, Rules.ofConfig_withLag]
    cases Rules.ofConfig c worker <;> rfl
  | issued timestamp sequence =>
    rw [startAt, startAt, restore, restore, Rules.ofConfig_withLag]
    cases Rules.ofConfig c worker with
    | error fault => rfl
    | ok r =>
      change (r.restore timestamp sequence >>= _) = (r.restore timestamp sequence >>= _).map _
      cases r.restore timestamp sequence <;> rfl

theorem WordGenerator.startAt_withLag (c : Config) (worker : Int) (start : Progress)
    (lag : LagPolicy) :
    startAt { c with lag } worker start = (startAt c worker start).map (withLag lag) := by
  rw [startAt_eq_map, startAt_eq_map, LockedGenerator.startAt_withLag]
  cases LockedGenerator.startAt c worker start <;> rfl

/-- Whatever state it is in, a generator of either kind issues the same stamps at the same polls
under every lag policy. Its answers can differ only while the clock is behind the last stamp, when
it either refuses or asks to wait for as much as the clock is behind. Generators that are made
with configurations that differ in the policy alone are such generators. -/
theorem stamps_unswayed_by_lag :
    (∀ (g : LockedGenerator) (readings : List Reading),
      Unswayed LockedGenerator.attempt LockedGenerator.withLag LockedGenerator.progress g
        readings) ∧
    (∀ (w : WordGenerator) (readings : List Reading),
      Unswayed WordGenerator.offer WordGenerator.withLag WordGenerator.progress w readings) ∧
    ∀ (c : Config) (worker : Int) (start : Progress) (lag : LagPolicy),
      LockedGenerator.startAt { c with lag } worker start =
          (LockedGenerator.startAt c worker start).map (.withLag lag) ∧
        WordGenerator.startAt { c with lag } worker start =
          (WordGenerator.startAt c worker start).map (.withLag lag) := by
  refine ⟨?_, ?_, ?_⟩
  · intro g readings
    exact unswayed_of_defers LockedGenerator.attempt_defers g readings
  · intro w readings
    exact unswayed_of_defers WordGenerator.offer_defers w readings
  · intro c worker start lag
    exact ⟨LockedGenerator.startAt_withLag c worker start lag,
      WordGenerator.startAt_withLag c worker start lag⟩

/-- One millisecond behind and then two, under a limit of one and under a refusal. -/
example : (LockedGenerator.startAt { lag := .wait 1 } 7 (.issued 5 4095)).map (fun g =>
      (g.answers [.shows 4, .shows 3, .shows 6],
        (g.withLag .fail).answers [.shows 4, .shows 3, .shows 6])) =
    .ok ([.pending 1, .refused (.clockBehind 2), .ready ⟨25194496⟩],
      [.refused (.clockBehind 1), .refused (.clockBehind 2), .ready ⟨25194496⟩]) :=
  rfl

end Tickstamp
