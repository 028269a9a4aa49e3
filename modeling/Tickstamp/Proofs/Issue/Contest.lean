import Tickstamp.Issue.Interleaving

/-!
# Overtaking polls interleave

A poll that others overtake, to any depth, is an interleaving of the moves of
as many callers: each one loads its word, lets the next one run from start to
end, and then goes on with the old word. So whatever holds of interleavings
holds of contests.
-/

namespace Tickstamp
namespace Arena

theorem run_append (a : Arena) (earlier later : List PollMove) :
    a.run (earlier ++ later) =
      ((a.run earlier).1 ++ ((a.run earlier).2.run later).1,
        ((a.run earlier).2.run later).2) := by
  induction earlier generalizing a with
  | nil => rfl
  | cons m rest ih => simp [run, ih]

@[simp] theorem setStage_generator (a : Arena) (caller : Nat) (s : Stage) :
    (a.setStage caller s).generator = a.generator :=
  rfl

@[simp] theorem setStage_stage (a : Arena) (caller : Nat) (s : Stage) (other : Nat) :
    (a.setStage caller s).stage other = if other = caller then s else a.stage other :=
  rfl

/-- Moves that carry out a poll and those that overtake it: they leave the same generator,
every caller is where it was, and the polls that come to an end get the same answers. -/
structure CarriesOut (a : Arena) (moves : List PollMove)
    (outcome : Answer × WordGenerator × WordGenerator.Contest) : Prop where
  generator : (a.run moves).2.generator = outcome.2.1
  stage : (a.run moves).2.stage = a.stage
  answers : (a.run moves).1.map PollRecord.answer =
    (outcome.2.2.overtakers ++ [outcome.1]).filter (· ≠ .abandoned)

theorem conclude_ne_abandoned (w : WordGenerator) (loaded now : UInt64) :
    (w.conclude loaded now).1 ≠ .abandoned := by
  rw [WordGenerator.conclude]
  split
  · split <;> exact fun h => nomatch h
  · exact fun h => nomatch h
  · exact fun h => nomatch h

theorem run_readConclude (a : Arena) {caller : Nat} {word : UInt64} (now : UInt64)
    (loaded : a.stage caller = .loaded word) :
    (a.run [.read caller (.shows now), .conclude caller]).1 =
        [⟨caller, word, now, (a.generator.conclude word now).1⟩] ∧
      (a.run [.read caller (.shows now), .conclude caller]).2.generator =
        (a.generator.conclude word now).2 ∧
      ∀ n, (a.run [.read caller (.shows now), .conclude caller]).2.stage n =
        if n = caller then .idle else a.stage n := by
  refine ⟨by simp [run, move, loaded], by simp [run, move, loaded], ?_⟩
  intro n
  by_cases h : n = caller
  · simp [run, move, loaded, h]
  · simp [run, move, loaded, h]

theorem run_readBreaksDown (a : Arena) {caller : Nat} {word : UInt64}
    (loaded : a.stage caller = .loaded word) :
    a.run [.read caller .breaksDown] = ([], a.setStage caller .idle) := by
  simp [run, move, loaded]

/-- A caller that loads a word and is back at rest later is where it was. -/
theorem stage_restored {a : Arena} {caller : Nat} {s : Stage} {stage : Nat → Stage}
    (idle : a.stage caller = .idle)
    (later : ∀ n, stage n = if n = caller then .idle else (a.setStage caller s).stage n) :
    stage = a.stage := by
  funext n
  rw [later n]
  by_cases h : n = caller
  · rw [if_pos h, h, idle]
  · rw [if_neg h, setStage_stage, if_neg h]

/-- A poll that nobody overtakes is carried out by its own moves. -/
theorem carriesOut_wholePoll (a : Arena) {caller : Nat} (now : UInt64) (script : Script)
    (idle : a.stage caller = .idle) :
    a.CarriesOut (wholePoll caller now)
      ((a.generator.conclude a.generator.word now).1,
        (a.generator.conclude a.generator.word now).2, { script }) := by
  obtain ⟨records, generator⟩ := a.run_wholePoll caller now idle
  have load : a.run (wholePoll caller now) =
      (a.setStage caller (.loaded a.generator.word)).run
        [.read caller (.shows now), .conclude caller] := by
    simp [wholePoll, run, move, idle]
  have last := (run_readConclude (a.setStage caller (.loaded a.generator.word)) now
    (if_pos rfl)).2.2
  refine ⟨generator, ?_, ?_⟩
  · rw [load]
    exact stage_restored idle last
  · rw [records]
    simp [WordGenerator.offer, conclude_ne_abandoned]

/-- Every contest is an interleaving. -/
theorem exists_carriesOut (step last : UInt64) (lines : List Script.Line) (a : Arena)
    (caller : Nat) (free : ∀ n, caller ≤ n → a.stage n = .idle) :
    ∃ moves, a.CarriesOut moves (a.generator.pollLines step last lines) := by
  induction lines generalizing a caller last with
  | nil => exact ⟨_, a.carriesOut_wholePoll _ _ (free caller (Nat.le_refl _))⟩
  | cons line rest ih =>
    have idle := free caller (Nat.le_refl _)
    cases line with
    | shows now => exact ⟨_, a.carriesOut_wholePoll now _ idle⟩
    | breaksDown => exact ⟨[], rfl, rfl, rfl⟩
    | overtaken now =>
      let word := a.generator.word
      let entered := a.setStage caller (.loaded word)
      have inside : ∀ n, caller + 1 ≤ n → entered.stage n = .idle := by
        intro n hn
        rw [setStage_stage, if_neg (by omega)]
        exact free n (by omega)
      obtain ⟨moves, carried⟩ := ih last entered (caller + 1) inside
      have loaded : (entered.run moves).2.stage caller = .loaded word := by
        rw [carried.stage, setStage_stage, if_pos rfl]
      have load (tail : List PollMove) : a.run (.load caller :: (moves ++ tail)) =
          ((entered.run moves).1 ++ ((entered.run moves).2.run tail).1,
            ((entered.run moves).2.run tail).2) := by
        rw [← run_append]
        simp [run, move, idle, entered, word]
      rw [WordGenerator.pollLines]
      replace carried : entered.CarriesOut moves (a.generator.pollLines step last rest) := carried
      generalize a.generator.pollLines step last rest = outcome at carried ⊢
      split
      · -- The break-down reaches the caller through the poll that it waits for.
        have tail := (entered.run moves).2.run_readBreaksDown loaded
        refine ⟨.load caller :: (moves ++ [.read caller .breaksDown]), ?_, ?_, ?_⟩
        · rw [load, tail]
          exact carried.generator
        · rw [load, tail]
          refine stage_restored (s := .loaded word) idle fun n => ?_
          rw [setStage_stage, carried.stage]
        · rw [load, tail, List.append_nil]
          exact carried.answers
      · obtain ⟨record, generator, stage⟩ := (entered.run moves).2.run_readConclude now loaded
        refine ⟨.load caller :: (moves ++ [.read caller (.shows now), .conclude caller]), ?_, ?_, ?_⟩
        · rw [load, generator, carried.generator]
        · rw [load]
          refine stage_restored (s := .loaded word) idle fun n => ?_
          rw [stage n, carried.stage]
        · rw [load, List.map_append, carried.answers, record, carried.generator]
          simp only [List.filter_append]
          congr 1
          simp [conclude_ne_abandoned, word]

end Arena
end Tickstamp
