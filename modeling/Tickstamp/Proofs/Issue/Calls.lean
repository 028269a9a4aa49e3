import Tickstamp.Proofs.Issue.Service

/-!
# Polls on a clock are histories

Polls of a locked generator in a row, such as those of its calls, are a history:
some list of readings leads to the same generator and to the same answers. Which
readings these are depends on the clock and is left open, so what is proved of
histories holds for every clock.
-/

namespace Tickstamp
namespace LockedGenerator

theorem answers_append (g : LockedGenerator) (earlier later : List Reading) :
    g.answers (earlier ++ later) = g.answers earlier ++ (g.after earlier).answers later := by
  rw [answers, history_append]
  rfl

theorem after_rules (g : LockedGenerator) (readings : List Reading) :
    (g.after readings).rules = g.rules := by
  induction readings generalizing g with
  | nil => rfl
  | cons reading rest ih => rw [after_cons, ih, attempt_rules]

theorem committed_of_mem_answers {g : LockedGenerator} {readings : List Reading} {s : Stamp}
    (issued : s ∈ Answer.stamps (g.answers readings)) :
    ∃ p now next, g.rules.respond p now = .ok (.commit next s) := by
  induction readings generalizing g with
  | nil => cases issued
  | cons reading rest ih =>
    rw [answers_cons, Answer.stamps_cons] at issued
    rcases List.mem_append.mp issued with first | later
    · exact committed_of_attempt first
    · have carried := ih later
      rwa [attempt_rules] at carried

theorem machine_of_mem_answers (g : LockedGenerator) (readings : List Reading) :
    ∀ s ∈ Answer.stamps (g.answers readings),
      (g.rules.layout.decode s).machine = g.rules.machine := by
  intro s issued
  obtain ⟨p, now, next, response⟩ := committed_of_mem_answers issued
  exact Rules.machine_of_commit response

variable {σ : Type} [Clock σ]

/-- A poll on a clock is an attempt at some reading; a poisoned lock takes any. -/
theorem exists_attempt (g : LockedGenerator) (clock : σ) :
    ∃ reading, (g.poll clock).1 = (g.attempt reading).1 ∧
      (g.poll clock).2.1 = (g.attempt reading).2 := by
  cases locked : g.poisoned with
  | true => exact ⟨.breaksDown, by simp [poll, attempt, locked]⟩
  | false => exact ⟨(Clock.read clock).1, by simp [poll, attempt, locked]⟩

/-- Polls on a clock are a history at some readings. -/
theorem exists_history_polls (times : Nat) (g : LockedGenerator) (clock : σ) :
    ∃ readings, (Call.polls poll times g clock).1 = g.answers readings ∧
      (Call.polls poll times g clock).2.1 = g.after readings := by
  induction times generalizing g clock with
  | zero => exact ⟨[], rfl, rfl⟩
  | succ times ih =>
    obtain ⟨reading, answer, after⟩ := g.exists_attempt clock
    obtain ⟨readings, answers, last⟩ := ih (g.poll clock).2.1 (g.poll clock).2.2
    rw [after] at answers last
    refine ⟨reading :: readings, ?_, ?_⟩
    · rw [Call.polls_succ, answers_cons, ← answer, ← answers, ← after]
    · rw [Call.polls_succ, after_cons, ← last, ← after]

end LockedGenerator
end Tickstamp
