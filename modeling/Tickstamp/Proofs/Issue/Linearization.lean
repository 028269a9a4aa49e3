import Tickstamp.Issue.Interleaving
import Tickstamp.Proofs.Issue.Ascent
import Tickstamp.Proofs.Issue.Mirror

/-!
# Interleaved polls are sequential polls

However the moves of concurrent polls interleave, the polls whose swap succeeds
are, in the order of the swaps, polls of a locked generator at the readings
that they took. Polls that lose a race, wait or are refused leave no trace. The
order of the readings on the clock is not used, nor is the age of a loaded
word.
-/

namespace Tickstamp

namespace PollRecord

/-- The polls whose swap succeeded, in the order of the swaps. -/
def commits (records : List PollRecord) : List PollRecord :=
  records.filter (·.answer.stamp?.isSome)

/-- The readings of the polls whose swap succeeded. -/
def readings (records : List PollRecord) : List Reading :=
  (commits records).map fun r => .shows r.now

/-- The stamps of the polls whose swap succeeded. -/
def stamps (records : List PollRecord) : List Stamp :=
  Answer.stamps (records.map answer)

theorem readings_append (earlier later : List PollRecord) :
    readings (earlier ++ later) = readings earlier ++ readings later := by
  simp [readings, commits]

theorem stamps_append (earlier later : List PollRecord) :
    stamps (earlier ++ later) = stamps earlier ++ stamps later := by
  simp [stamps, Answer.stamps]

theorem silent {record : Option PollRecord} (h : ∀ r ∈ record, r.answer.stamp? = none) :
    readings record.toList = [] ∧ stamps record.toList = [] := by
  cases record with
  | none => exact ⟨rfl, rfl⟩
  | some r =>
    have none := h r rfl
    simp [readings, commits, stamps, Answer.stamps, none]

end PollRecord
namespace Arena

/-- A move lets one swap succeed, or else it leaves the generator alone and hands out
nothing. -/
theorem move_cases (a : Arena) (m : PollMove) :
    (∃ caller now next stamp,
      WordGenerator.decision a.generator.rules a.generator.word now = .ok (.commit next stamp) ∧
        (a.move m).1 = some ⟨caller, a.generator.word, now, .ready stamp⟩ ∧
          (a.move m).2.generator = { a.generator with
            word := next.pack a.generator.rules.layout.sequenceBits }) ∨
      ((a.move m).2.generator = a.generator ∧ ∀ r ∈ (a.move m).1, r.answer.stamp? = none) := by
  cases m with
  | load caller => cases h : a.stage caller <;> exact Or.inr (by simp [move, h, setStage])
  | read caller reading =>
    cases reading <;> cases h : a.stage caller <;> exact Or.inr (by simp [move, h, setStage])
  | conclude caller =>
    cases h : a.stage caller with
    | idle => exact Or.inr (by simp [move, h])
    | loaded word => exact Or.inr (by simp [move, h])
    | timed word now =>
      rcases a.generator.conclude_cases word now with
        ⟨next, stamp, rfl, decided, commit⟩ | ⟨none, same⟩
      · exact Or.inl ⟨caller, now, next, stamp, decided, by simp [move, h, commit],
          by simp [move, h, commit, setStage]⟩
      · exact Or.inr (by simp [move, h, none, same, setStage])

theorem run_cons (a : Arena) (m : PollMove) (rest : List PollMove) :
    a.run (m :: rest) =
      ((a.move m).1.toList ++ ((a.move m).2.run rest).1, ((a.move m).2.run rest).2) :=
  rfl

/-- The locked generator answers the readings of the successful swaps with their stamps, and
is left where the swaps have left the word. -/
theorem run_mirrors (a : Arena) (moves : List PollMove) {g : LockedGenerator}
    (h : a.generator.Mirrors g) :
    g.answers (PollRecord.readings (a.run moves).1) =
        (PollRecord.stamps (a.run moves).1).map .ready ∧
      (a.run moves).2.generator.Mirrors (g.after (PollRecord.readings (a.run moves).1)) := by
  -- the locked generator moves only with a swap that succeeds
  induction moves generalizing a g with
  | nil => exact ⟨rfl, h⟩
  | cons m rest ih =>
    simp only [run_cons, PollRecord.readings_append, PollRecord.stamps_append]
    rcases a.move_cases m with ⟨caller, now, next, stamp, decided, record, swapped⟩ | ⟨same, silent⟩
    · obtain ⟨attempt, mirrors⟩ := h.commit decided
      rw [← swapped] at mirrors
      obtain ⟨answers, final⟩ := ih (a.move m).2 mirrors
      have readings : PollRecord.readings (a.move m).1.toList = [.shows now] := by
        rw [record]
        rfl
      have stamps : PollRecord.stamps (a.move m).1.toList = [stamp] := by
        rw [record]
        rfl
      rw [readings, stamps, List.singleton_append, List.singleton_append, List.map_cons,
        LockedGenerator.answers_cons, LockedGenerator.after_cons, attempt, answers]
      exact ⟨rfl, final⟩
    · obtain ⟨readings, stamps⟩ := PollRecord.silent silent
      rw [readings, stamps]
      exact ih (a.move m).2 (by rw [same]; exact h)

/-- Concurrent polls of a word generator are linearized by their successful swaps: a locked
generator that begins likewise answers the readings of those swaps with the same stamps, one
by one, and ends with the same progress. So the stamps of all callers together increase in
the order of the swaps, and those of each caller increase for it. -/
theorem run_linearizes {c : Config} {worker : Int} {start : Progress} {w : WordGenerator}
    (started : WordGenerator.startAt c worker start = .ok w) :
    ∃ g, LockedGenerator.startAt c worker start = .ok g ∧ ∀ moves,
      let records := (run { generator := w } moves).1
      let final := (run { generator := w } moves).2.generator
      let sequential := g.after (PollRecord.readings records)
      g.answers (PollRecord.readings records) = (PollRecord.stamps records).map .ready ∧
        final = WordGenerator.resume sequential.rules sequential.progress ∧
        Progress.unpack final.word final.rules.layout.sequenceBits = sequential.progress ∧
        (PollRecord.stamps records).Pairwise (· < ·) ∧ (PollRecord.stamps records).Nodup ∧
        ∀ caller, (PollRecord.stamps (records.filter (·.caller == caller))).Pairwise (· < ·) := by
  obtain ⟨g, begun, mirrors⟩ := WordGenerator.mirrors_of_startAt started
  refine ⟨g, begun, ?_⟩
  intro moves records final sequential
  obtain ⟨answers, mirrored⟩ := run_mirrors { generator := w } moves mirrors
  have handedOut : Answer.stamps (g.answers (PollRecord.readings records)) =
      PollRecord.stamps records := by
    rw [answers]
    exact Answer.stamps_map_ready _
  have climb := g.history_climb (PollRecord.readings records)
  rw [handedOut] at climb
  refine ⟨answers, mirrored.resumed, mirrored.unpack_word, climb.increasing,
    Stamp.nodup_of_increasing climb.increasing, ?_⟩
  intro caller
  have sub : List.Sublist (PollRecord.stamps (records.filter (·.caller == caller)))
      (PollRecord.stamps records) :=
    (List.filter_sublist.map _).filterMap _
  exact climb.increasing.sublist sub

/-- Two callers have loaded the same word, and the one that loaded it first loses the race. -/
theorem run_linearizes_race :
    ∃ w, WordGenerator.startAt {} 7 (.issued 5 4095) = .ok w ∧
      let records := (run { generator := w } [.load 0, .load 1, .read 0 (.shows 6),
        .read 1 (.shows 7), .conclude 1, .conclude 0, .load 1, .read 1 (.shows 7), .conclude 1]).1
      records.map PollRecord.answer = [.ready ⟨29388800⟩, .pending 0, .ready ⟨29388801⟩] ∧
        (PollRecord.stamps records).Pairwise (· < ·) := by
  have started : WordGenerator.startAt {} 7 (.issued 5 4095) = .ok _ := rfl
  obtain ⟨g, _, linear⟩ := run_linearizes started
  exact ⟨_, started, rfl, (linear _).2.2.2.1⟩

end Arena
end Tickstamp
