import Tickstamp.Issue.Call
import Tickstamp.Proofs.Issue.Ascent

/-!
# Calls are polls in a row

A call is nothing but polls that follow one another until one is conclusive, and
a batch of calls is the polls of all of them; so it is for every kind of
generator and of clock, as long as a back-off leaves the clock alone. If the
batch comes to its end, then no poll was asked in vain: each of its answers is a
stamp, or a wait for one that comes later. How many polls it takes is left open.
-/

namespace Tickstamp

/-- The answers to calls that are made one after the other and all come to a stamp: a wait is
told only to a call that still gets one. -/
inductive Answer.Serve : List Answer → List Stamp → Prop where
  | nil : Serve [] []
  | wait {answers : List Answer} {s : Stamp} {stamps : List Stamp} (millis : UInt64)
      (rest : Serve answers (s :: stamps)) : Serve (.pending millis :: answers) (s :: stamps)
  | ready {answers : List Answer} {stamps : List Stamp} (s : Stamp)
      (rest : Serve answers stamps) : Serve (.ready s :: answers) (s :: stamps)

namespace Answer

theorem Serve.append {answers more : List Answer} {stamps later : List Stamp}
    (first : Serve answers stamps) (second : Serve more later) :
    Serve (answers ++ more) (stamps ++ later) := by
  induction first with
  | nil => exact second
  | wait millis _ ih => exact ih.wait millis
  | ready s _ ih => exact ih.ready s

theorem Serve.stamps_eq {answers : List Answer} {stamps : List Stamp}
    (h : Serve answers stamps) : Answer.stamps answers = stamps := by
  induction h with
  | nil => rfl
  | wait _ _ ih => exact ih
  | ready s _ ih => rw [stamps_cons, ih]; rfl

end Answer
namespace Call

open Answer (Serve)

variable {γ σ : Type} (poll : Poll γ σ)

/-- The polls of a call with their answers. If it comes to a stamp, they serve that stamp alone. -/
theorem exists_polls_next (patience : Nat) (g : γ) (clock : σ) :
    ∃ answers : List Answer,
      polls poll answers.length g clock = (answers, (next poll idle patience g clock).generator,
        (next poll idle patience g clock).clock) ∧
      Answer.stamps answers = (next poll idle patience g clock).result.toOption.toList ∧
      ∀ s, (next poll idle patience g clock).result = .ok s → Serve answers [s] := by
  induction patience generalizing g clock with
  | zero => exact ⟨[], rfl, rfl, by rintro s ⟨⟩⟩
  | succ patience ih =>
    rw [next]
    rcases asked : poll g clock with ⟨answer, g', clock'⟩
    cases answer with
    | ready stamp =>
      refine ⟨[.ready stamp], by simp [polls, asked], rfl, ?_⟩
      rintro _ ⟨⟩
      exact Serve.nil.ready stamp
    | refused fault => exact ⟨[.refused fault], by simp [polls, asked], rfl, by rintro s ⟨⟩⟩
    | abandoned => exact ⟨[.abandoned], by simp [polls, asked], rfl, by rintro s ⟨⟩⟩
    | pending millis =>
      -- the call goes on polling with one try less
      obtain ⟨answers, made, stamps, serve⟩ := ih g' clock'
      refine ⟨.pending millis :: answers, ?_, stamps, ?_⟩
      · rw [List.length_cons, polls_succ]
        simp only [asked, made]
        rfl
      · intro s result
        exact (serve s result).wait millis

/-- The polls of a batch with their answers, among which are all the stamps that it issues. If it
comes to its end, then it was served one stamp for each of its calls. -/
theorem exists_polls_batchAfter (patience count : Nat) (done : List Stamp) (g : γ) (clock : σ) :
    ∃ answers : List Answer,
      let whole := batchAfter poll patience done count g clock
      polls poll answers.length g clock = (answers, whole.generator, whole.clock) ∧
      whole.issued = done.reverse ++ Answer.stamps answers ∧
      (whole.halt = none →
        Serve answers (Answer.stamps answers) ∧ (Answer.stamps answers).length = count) := by
  induction count generalizing done g clock with
  | zero => exact ⟨[], rfl, (List.append_nil _).symm, fun _ => ⟨Serve.nil, rfl⟩⟩
  | succ count ih =>
    obtain ⟨answers, made, stamps, serve⟩ := exists_polls_next poll patience g clock
    rw [batchAfter]
    generalize next poll idle patience g clock = one at made stamps serve ⊢
    obtain ⟨result, waits, g', clock'⟩ := one
    cases result with
    | error halt =>
      refine ⟨answers, made, ?_, by rintro ⟨⟩⟩
      rw [stamps]
      exact (List.append_nil _).symm
    | ok stamp =>
      obtain ⟨others, rest, issued, served⟩ := ih (stamp :: done) g' clock'
      have single : Answer.stamps answers = [stamp] := stamps
      refine ⟨answers ++ others, ?_, ?_, ?_⟩
      · rw [List.length_append, polls_add]
        simp only [made, rest]
      · rw [Answer.stamps_append, single]
        exact issued.trans (by simp)
      · intro complete
        obtain ⟨later, length⟩ := served complete
        rw [Answer.stamps_append, single]
        exact ⟨(serve stamp rfl).append later, by simp [length]⟩

theorem exists_polls_of_batch {patience count : Nat} {g : γ} {clock : σ} {stamps : List Stamp}
    (result : (batch poll patience count g clock).result = .ok stamps) :
    stamps.length = count ∧ ∃ answers : List Answer, Serve answers stamps ∧
      polls poll answers.length g clock = (answers, (batch poll patience count g clock).generator,
        (batch poll patience count g clock).clock) := by
  obtain ⟨answers, made, issued, served⟩ := exists_polls_batchAfter poll patience count [] g clock
  rw [← batch] at made issued served
  generalize batch poll patience count g clock = whole at result made issued served ⊢
  obtain ⟨given, halt, g', clock'⟩ := whole
  cases halt with
  | some halt => cases result
  | none =>
    cases result
    obtain ⟨serve, length⟩ := served rfl
    obtain rfl : given = Answer.stamps answers := issued
    exact ⟨length, answers, serve, made⟩

end Call
end Tickstamp
