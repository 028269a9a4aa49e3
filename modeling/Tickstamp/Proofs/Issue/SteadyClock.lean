import Tickstamp.Proofs.Issue.Linearization
import Tickstamp.Proofs.Issue.Response

/-!
# A steady clock is never behind

If the readings never go down in the order in which the clock gives them, no
poll finds the clock behind the last stamp, however the polls interleave: a
poll loads its word, or takes the lock, before it reads the clock, so all that
it compares with its reading was committed at an earlier one. How many polls
lose a race, and how often a tick runs out of sequences, is left open.
-/

namespace Tickstamp

/-- The tick of the last stamp, or the first of all ticks. -/
def Progress.tick : Progress → UInt64
  | .fresh => 0
  | .issued timestamp _ => timestamp

def Reading.time? : Reading → Option UInt64
  | .shows now => some now
  | .breaksDown => none

/-- An answer that blames no lag of the clock: at the most it asks to wait for the next tick. -/
structure Answer.OnTime (answer : Answer) : Prop where
  notBehind : ∀ drift, answer ≠ .refused (.clockBehind drift)
  brief : ∀ millis, answer = .pending millis → millis ≤ 1

/-- A reading that is not before the tick of the last stamp is never behind it. -/
theorem Progress.advance_of_tick_le {p : Progress} {now : UInt64} (reached : p.tick ≤ now)
    (maxSequence : UInt64) (carryOver : CarryOver) :
    (∃ sequence, p.advance now maxSequence carryOver = .issue now sequence) ∨
      p.advance now maxSequence carryOver = .exhausted := by
  cases p with
  | fresh => exact Or.inl ⟨0, rfl⟩
  | issued timestamp sequence =>
    have notBehind : ¬ now < timestamp := UInt64.not_lt.mpr reached
    by_cases later : timestamp < now
    · exact Or.inl ⟨_, by simp only [advance, if_neg notBehind, if_pos later]; rfl⟩
    · by_cases room : sequence < maxSequence
      · exact Or.inl ⟨_, by simp only [advance, if_neg notBehind, if_neg later, if_pos room]; rfl⟩
      · exact Or.inr (by simp only [advance, if_neg notBehind, if_neg later, if_neg room])

/-- At such a reading a stamp is committed for it, or the tick is used up, or the fields do not
fit. -/
theorem Rules.respond_of_tick_le (r : Rules) {p : Progress} {now : UInt64}
    (reached : p.tick ≤ now) :
    (∃ sequence stamp, r.respond p now = .ok (.commit (.issued now sequence) stamp)) ∨
      r.respond p now = .ok (.wait 1) ∨
        ∃ field value max, r.respond p now = .error (.fieldTooLarge field value max) := by
  rcases Progress.advance_of_tick_le reached r.layout.maxSequence r.carryOver with
    ⟨sequence, issue⟩ | exhausted
  · rcases r.layout.encode_cases ⟨now, r.machine, sequence⟩ with
      ⟨s, coded⟩ | ⟨field, value, max, large⟩
    · exact Or.inl ⟨sequence, s, by simp only [respond, issue, coded]; rfl⟩
    · exact Or.inr (Or.inr ⟨field, value, max, by simp only [respond, issue, large]; rfl⟩)
  · exact Or.inr (Or.inl (by simp only [respond, exhausted]))

namespace Answer

theorem onTime_ready (stamp : Stamp) : (ready stamp).OnTime :=
  ⟨by simp, by simp⟩

theorem onTime_abandoned : abandoned.OnTime :=
  ⟨by simp, by simp⟩

theorem onTime_pending {millis : UInt64} (brief : millis ≤ 1) : (pending millis).OnTime :=
  ⟨by simp, by simpa using brief⟩

theorem onTime_refused {fault : Fault} (other : ∀ drift, fault ≠ .clockBehind drift) :
    (refused fault).OnTime :=
  ⟨by simpa using other, by simp⟩

end Answer

theorem Rules.onTime_of_tick_le (r : Rules) {p : Progress} {now : UInt64} (reached : p.tick ≤ now) :
    (Answer.ofResponse (r.respond p now)).OnTime ∧ (p.following (r.respond p now)).tick ≤ now := by
  rcases r.respond_of_tick_le reached with
    ⟨sequence, stamp, commit⟩ | wait | ⟨field, value, max, refused⟩
  · rw [commit]
    exact ⟨Answer.onTime_ready stamp, UInt64.le_refl now⟩
  · rw [wait]
    exact ⟨Answer.onTime_pending (by decide), reached⟩
  · rw [refused]
    exact ⟨Answer.onTime_refused (by simp), reached⟩

theorem steady_split {latest : UInt64} {first : Option UInt64} {rest : List UInt64}
    (steady : (latest :: (first.toList ++ rest)).Pairwise (· ≤ ·)) :
    (∀ now ∈ first, latest ≤ now) ∧ (first.getD latest :: rest).Pairwise (· ≤ ·) := by
  cases first with
  | none => exact ⟨by simp, steady⟩
  | some now =>
    obtain ⟨above, more⟩ := List.pairwise_cons.mp steady
    refine ⟨?_, more⟩
    rintro _ ⟨⟩
    exact above now (by simp)

namespace LockedGenerator

/-- The reading that a poll takes from the clock; at a poisoned lock it takes none. -/
def reading? (g : LockedGenerator) (reading : Reading) : Option UInt64 :=
  if g.poisoned then none else reading.time?

/-- The readings that a history of polls takes from the clock, in order. -/
def timeline (g : LockedGenerator) : List Reading → List UInt64
  | [] => []
  | reading :: rest => (g.reading? reading).toList ++ (g.attempt reading).2.timeline rest

/-- A poll that takes no reading before the latest one is on time, and the progress stays no
later than the latest reading. -/
theorem attempt_onTime {g : LockedGenerator} {latest : UInt64} (begun : g.progress.tick ≤ latest)
    (reading : Reading) (steady : ∀ now ∈ g.reading? reading, latest ≤ now) :
    (g.attempt reading).1.OnTime ∧
      (g.attempt reading).2.progress.tick ≤ (g.reading? reading).getD latest := by
  cases locked : g.poisoned with
  | true =>
    exact ⟨by simpa [attempt, locked] using Answer.onTime_refused (by simp),
      by simpa [attempt, locked, reading?] using begun⟩
  | false =>
    cases reading with
    | breaksDown =>
      exact ⟨by simpa [attempt, locked, offer] using Answer.onTime_abandoned,
        by simpa [attempt, locked, offer, reading?, Reading.time?] using begun⟩
    | shows now =>
      have taken : g.reading? (.shows now) = some now := by
        simp [reading?, locked, Reading.time?]
      have reached := UInt64.le_trans begun (steady now taken)
      rw [taken, Option.getD_some, attempt_shows locked]
      exact g.rules.onTime_of_tick_le reached

theorem answers_onTime {g : LockedGenerator} {latest : UInt64} (begun : g.progress.tick ≤ latest)
    (readings : List Reading) (steady : (latest :: g.timeline readings).Pairwise (· ≤ ·)) :
    ∀ answer ∈ g.answers readings, answer.OnTime := by
  induction readings generalizing g latest with
  | nil => simp [answers, history]
  | cons reading rest ih =>
    obtain ⟨now, later⟩ := steady_split steady
    obtain ⟨onTime, after⟩ := attempt_onTime begun reading now
    intro answer given
    rw [answers_cons] at given
    rcases List.mem_cons.mp given with rfl | given
    · exact onTime
    · exact ih after later answer given

end LockedGenerator
namespace WordGenerator

/-- The tick of the progress that a word stands for. -/
def tickOf (r : Rules) (word : UInt64) : UInt64 :=
  (Progress.unpack word r.layout.sequenceBits).tick

theorem conclude_onTime (w : WordGenerator) {loaded now : UInt64}
    (reached : tickOf w.rules loaded ≤ now) :
    (w.conclude loaded now).1.OnTime ∧ (w.conclude loaded now).2.rules = w.rules ∧
      ((w.conclude loaded now).2.word = w.word ∨
        tickOf w.rules (w.conclude loaded now).2.word ≤ now) := by
  obtain ⟨onTime, further⟩ := w.rules.onTime_of_tick_le reached
  refine ⟨?_, ?_⟩
  · rcases w.conclude_answer loaded now with handed | lost
    · rw [handed]
      exact onTime
    · rw [lost]
      exact Answer.onTime_pending (by decide)
  · rcases w.conclude_cases loaded now with ⟨next, stamp, _, decided, commit⟩ | ⟨_, same⟩
    · rw [decision] at decided
      rw [decided] at further
      rw [commit]
      refine ⟨rfl, Or.inr ?_⟩
      rw [tickOf, Progress.unpack_pack (Rules.within_of_commit decided)]
      exact further
    · rw [same]
      exact ⟨rfl, Or.inl rfl⟩

end WordGenerator

open WordGenerator

/-- What a caller has loaded is not later than what it has read since, or than the latest
reading. -/
def Stage.Punctual (r : Rules) (latest : UInt64) : Stage → Prop
  | .idle => True
  | .loaded word => tickOf r word ≤ latest
  | .timed word now => tickOf r word ≤ now ∧ now ≤ latest

namespace Arena

/-- The reading that a move takes from the clock. -/
def reading? (a : Arena) : PollMove → Option UInt64
  | .read caller reading =>
    match a.stage caller with
    | .loaded _ => reading.time?
    | _ => none
  | _ => none

/-- The readings that an interleaving takes from the clock, in the order in which it gives them. -/
def timeline (a : Arena) : List PollMove → List UInt64
  | [] => []
  | m :: rest => (a.reading? m).toList ++ (a.move m).2.timeline rest

/-- Nothing in the arena is later than the latest reading. -/
structure Punctual (a : Arena) (latest : UInt64) : Prop where
  word : tickOf a.generator.rules a.generator.word ≤ latest
  stages : ∀ caller, (a.stage caller).Punctual a.generator.rules latest

variable {a : Arena} {latest : UInt64}

theorem Punctual.later (h : a.Punctual latest) {now : UInt64} (steady : latest ≤ now) :
    a.Punctual now := by
  refine ⟨UInt64.le_trans h.word steady, ?_⟩
  intro caller
  have before := h.stages caller
  cases stage : a.stage caller with
  | idle => trivial
  | loaded word =>
    rw [stage] at before
    exact UInt64.le_trans before steady
  | timed word time =>
    rw [stage] at before
    exact ⟨before.1, UInt64.le_trans before.2 steady⟩

theorem Punctual.setStage (h : a.Punctual latest) (caller : Nat) (s : Stage)
    (punctual : s.Punctual a.generator.rules latest) : (a.setStage caller s).Punctual latest := by
  refine ⟨h.word, ?_⟩
  intro other
  by_cases same : other = caller
  · simpa [Arena.setStage, same] using punctual
  · simpa [Arena.setStage, same] using h.stages other

/-- A move that takes no reading before the latest one keeps the arena punctual, and the poll
that it ends is on time. -/
theorem Punctual.move (h : a.Punctual latest) (m : PollMove)
    (steady : ∀ now ∈ a.reading? m, latest ≤ now) :
    (∀ record ∈ (a.move m).1, record.answer.OnTime) ∧
      (a.move m).2.Punctual ((a.reading? m).getD latest) := by
  cases m with
  | load caller =>
    cases stage : a.stage caller with
    | idle => simpa [Arena.move, stage, reading?] using h.setStage caller (.loaded _) h.word
    | loaded word => simpa [Arena.move, stage, reading?] using h
    | timed word now => simpa [Arena.move, stage, reading?] using h
  | read caller reading =>
    have before := h.stages caller
    cases stage : a.stage caller with
    | idle => simpa [Arena.move, stage, reading?] using h
    | timed word now => simpa [Arena.move, stage, reading?] using h
    | loaded word =>
      rw [stage] at before
      cases reading with
      | breaksDown =>
        simpa [Arena.move, stage, reading?, Reading.time?] using h.setStage caller .idle trivial
      | shows now =>
        have after : latest ≤ now := steady now (by simp [reading?, stage, Reading.time?])
        simpa [Arena.move, stage, reading?, Reading.time?] using
          (h.later after).setStage caller (.timed word now)
            ⟨UInt64.le_trans before after, UInt64.le_refl now⟩
  | conclude caller =>
    have before := h.stages caller
    cases stage : a.stage caller with
    | idle => simpa [Arena.move, stage, reading?] using h
    | loaded word => simpa [Arena.move, stage, reading?] using h
    | timed word now =>
      rw [stage] at before
      obtain ⟨onTime, rules, swapped⟩ := a.generator.conclude_onTime before.1
      have concluded : Punctual { a with generator := (a.generator.conclude word now).2 } latest := by
        refine ⟨?_, ?_⟩
        · rw [rules]
          rcases swapped with same | moved
          · rw [same]
            exact h.word
          · exact UInt64.le_trans moved before.2
        · rw [rules]
          exact h.stages
      simpa [Arena.move, stage, reading?] using ⟨onTime, concluded.setStage caller .idle trivial⟩

theorem run_onTime (h : a.Punctual latest) (moves : List PollMove)
    (steady : (latest :: a.timeline moves).Pairwise (· ≤ ·)) :
    ∀ record ∈ (a.run moves).1, record.answer.OnTime := by
  induction moves generalizing a latest with
  | nil => simp [run]
  | cons m rest ih =>
    obtain ⟨now, later⟩ := steady_split steady
    obtain ⟨onTime, after⟩ := h.move m now
    intro record ended
    rw [run_cons] at ended
    rcases List.mem_append.mp ended with ended | ended
    · exact onTime record (by simpa using ended)
    · exact ih after later record ended

end Arena

/-- No poll is told that the clock went back, or to wait for more than the next tick, if the
readings never go down in the order in which the clock gives them and the first of them is not
before the stamp after which the generator goes on. This holds under every policy, of a locked
generator for the polls of all callers in the order in which they take the lock, and of one on a
word for every interleaving of their moves. -/
theorem onTime_of_steady {c : Config} {worker : Int} {start : Progress} {g : LockedGenerator}
    (begun : LockedGenerator.startAt c worker start = .ok g) :
    (∀ readings, (start.tick :: g.timeline readings).Pairwise (· ≤ ·) →
      ∀ answer ∈ g.answers readings, answer.OnTime) ∧
    ∃ w, WordGenerator.startAt c worker start = .ok w ∧ ∀ moves,
      (start.tick :: Arena.timeline { generator := w } moves).Pairwise (· ≤ ·) →
        ∀ record ∈ (Arena.run { generator := w } moves).1, record.answer.OnTime := by
  obtain ⟨r, accepted, within, rfl⟩ := (LockedGenerator.startAt_eq_ok_iff ..).mp begun
  constructor
  · intro readings steady
    exact LockedGenerator.answers_onTime (UInt64.le_refl _) readings steady
  · have made := WordGenerator.startAt_eq_map c worker start
    rw [begun] at made
    refine ⟨_, made, ?_⟩
    intro moves steady
    have punctual : Arena.Punctual { generator := resume r start } start.tick := by
      refine ⟨?_, fun _ => trivial⟩
      rw [tickOf, resume, Progress.unpack_pack within]
      exact UInt64.le_refl _
    exact Arena.run_onTime punctual moves steady

/-- A generator that never waits for its clock goes on after a full tick. The first caller reads
the clock in that tick, and comes to its end when another has committed in the next. -/
theorem onTime_of_steady_slow_caller :
    ∃ g w, LockedGenerator.startAt { lag := .fail } 7 (.issued 5 4095) = .ok g ∧
      WordGenerator.startAt { lag := .fail } 7 (.issued 5 4095) = .ok w ∧
      (∀ answer ∈ g.answers [.shows 5, .shows 6, .shows 6], answer.OnTime) ∧
      let records := (Arena.run { generator := w } [.load 0, .read 0 (.shows 5), .load 1,
        .read 1 (.shows 6), .conclude 1, .load 2, .conclude 0, .read 2 (.shows 6), .conclude 2]).1
      records.map PollRecord.answer = [.ready ⟨25194496⟩, .pending 1, .ready ⟨25194497⟩] ∧
        ∀ record ∈ records, record.answer.OnTime := by
  have begun : LockedGenerator.startAt { lag := .fail } 7 (.issued 5 4095) = .ok _ := rfl
  obtain ⟨locked, w, made, interleaved⟩ := onTime_of_steady begun
  refine ⟨_, w, begun, made, locked _ (by decide), ?_⟩
  cases made
  exact ⟨rfl, interleaved _ (by decide)⟩

end Tickstamp
