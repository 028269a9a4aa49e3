import Tickstamp.Proofs.Issue.Mirror

/-!
# Polls hand on the response of the rules

A poll that nobody overtakes is answered with what the rules respond, and the
progress follows the response; so it is for both kinds of generator. A poll
that is overtaken may be told to try again instead, and nothing else.
-/

namespace Tickstamp

/-- The answer that hands on a response of the rules. -/
def Answer.ofResponse : Except Fault Decision → Answer
  | .ok (.commit _ stamp) => .ready stamp
  | .ok (.wait millis) => .pending millis
  | .error fault => .refused fault

/-- The progress after a response: a commit brings its own, and nothing else changes it. -/
def Progress.following (p : Progress) : Except Fault Decision → Progress
  | .ok (.commit next _) => next
  | .ok (.wait _) | .error _ => p

theorem LockedGenerator.attempt_shows {g : LockedGenerator} (sound : g.poisoned = false)
    (now : UInt64) :
    g.attempt (.shows now) = (.ofResponse (g.rules.respond g.progress now),
      { g with progress := g.progress.following (g.rules.respond g.progress now) }) := by
  obtain ⟨rules, progress, _⟩ := g
  subst sound
  cases response : rules.respond progress now with
  | error fault => simp [attempt, offer, response, Answer.ofResponse, Progress.following]
  | ok decision =>
    cases decision with
    | commit next stamp => simp [attempt, offer, response, Answer.ofResponse, Progress.following]
    | wait millis => simp [attempt, offer, response, Answer.ofResponse, Progress.following]

/-- The answers that hand on the responses to these readings, one after the other. -/
def Rules.answers (r : Rules) (p : Progress) : List UInt64 → List Answer
  | [] => []
  | now :: rest =>
    .ofResponse (r.respond p now) :: r.answers (p.following (r.respond p now)) rest

theorem LockedGenerator.answers_shows {g : LockedGenerator} (sound : g.poisoned = false)
    (readings : List UInt64) :
    g.answers (readings.map .shows) = g.rules.answers g.progress readings := by
  induction readings generalizing g with
  | nil => rfl
  | cons now rest ih =>
    have later := ih (g := { g with
      progress := g.progress.following (g.rules.respond g.progress now) }) sound
    rw [List.map_cons, answers, history_cons, attempt_shows sound, Rules.answers, ← later]
    rfl

theorem Rules.within_following {r : Rules} {p : Progress} (within : p.Within r.layout)
    (now : UInt64) : (p.following (r.respond p now)).Within r.layout := by
  cases response : r.respond p now with
  | error fault => exact within
  | ok decision =>
    cases decision with
    | commit next stamp => exact within_of_commit response
    | wait millis => exact within

namespace WordGenerator

/-- At the end of a poll stands the response to what it loaded, or a lost race. -/
theorem conclude_answer (w : WordGenerator) (loaded now : UInt64) :
    (w.conclude loaded now).1 = .ofResponse (decision w.rules loaded now) ∨
      (w.conclude loaded now).1 = .pending 0 := by
  cases decided : decision w.rules loaded now with
  | error fault => exact Or.inl (by simp [conclude, decided, Answer.ofResponse])
  | ok response =>
    cases response with
    | wait millis => exact Or.inl (by simp [conclude, decided, Answer.ofResponse])
    | commit next stamp =>
      by_cases present : w.word = loaded
      · exact Or.inl (by simp [conclude, decided, present, Answer.ofResponse])
      · exact Or.inr (by simp [conclude, decided, present])

theorem Mirrors.offer_shows {w : WordGenerator} {g : LockedGenerator} (h : w.Mirrors g)
    (now : UInt64) :
    w.offer (.shows now) = (.ofResponse (g.rules.respond g.progress now),
      resume g.rules (g.progress.following (g.rules.respond g.progress now))) := by
  have rules := h.rules
  have decided := h.decision_eq now
  rw [rules] at decided
  cases response : g.rules.respond g.progress now with
  | error fault =>
    rw [response] at decided
    simpa [offer, conclude, rules, decided, Answer.ofResponse, Progress.following] using h.resumed
  | ok answer =>
    rw [response] at decided
    cases answer with
    | commit next stamp =>
      simp [offer, conclude, rules, decided, Answer.ofResponse, Progress.following, resume]
    | wait millis =>
      simpa [offer, conclude, rules, decided, Answer.ofResponse, Progress.following] using
        h.resumed

end WordGenerator
end Tickstamp
