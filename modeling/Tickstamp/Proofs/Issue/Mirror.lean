import Tickstamp.Proofs.Issue.Image

/-!
# The word generator mirrors the locked one

Both kinds of generator begin alike, and a swap that succeeds is a commit of
the locked generator: the word that the poll loaded is then the present one,
so it stands for the present progress, however long ago it was loaded.
-/

namespace Tickstamp
namespace WordGenerator

/-- A word generator that begins with this progress. -/
def startAt (c : Config) (worker : Int) : Progress → Except Fault WordGenerator
  | .fresh => ofConfig c worker
  | .issued timestamp sequence => restore c worker timestamp sequence

theorem startAt_eq_map (c : Config) (worker : Int) (p : Progress) :
    startAt c worker p =
      (LockedGenerator.startAt c worker p).map fun g => resume g.rules g.progress := by
  cases p with
  | fresh =>
    rw [startAt, LockedGenerator.startAt, ofConfig, LockedGenerator.ofConfig]
    cases Rules.ofConfig c worker <;> rfl
  | issued timestamp sequence =>
    rw [startAt, LockedGenerator.startAt, restore, LockedGenerator.restore]
    cases Rules.ofConfig c worker with
    | error fault => rfl
    | ok r =>
      change (r.restore timestamp sequence >>= _) = (r.restore timestamp sequence >>= _).map _
      cases r.restore timestamp sequence <;> rfl

/-- A conclusion commits at the word that was loaded, or else it hands out nothing and
changes nothing. -/
theorem conclude_cases (w : WordGenerator) (loaded now : UInt64) :
    (∃ next stamp, w.word = loaded ∧ decision w.rules loaded now = .ok (.commit next stamp) ∧
      w.conclude loaded now =
        (.ready stamp, { w with word := next.pack w.rules.layout.sequenceBits })) ∨
      ((w.conclude loaded now).1.stamp? = none ∧ (w.conclude loaded now).2 = w) := by
  cases decided : decision w.rules loaded now with
  | error fault => exact Or.inr (by simp [conclude, decided, Answer.stamp?])
  | ok response =>
    cases response with
    | wait millis => exact Or.inr (by simp [conclude, decided, Answer.stamp?])
    | commit next stamp =>
      by_cases present : w.word = loaded
      · exact Or.inl ⟨next, stamp, present, rfl, by simp [conclude, decided, present]⟩
      · exact Or.inr (by simp [conclude, decided, present, Answer.stamp?])

/-- A word generator that stands where a locked generator stands. -/
structure Mirrors (w : WordGenerator) (g : LockedGenerator) : Prop where
  resumed : w = resume g.rules g.progress
  within : g.progress.Within g.rules.layout
  sound : g.poisoned = false

variable {w : WordGenerator} {g : LockedGenerator}

theorem Mirrors.rules (h : w.Mirrors g) : w.rules = g.rules :=
  congrArg WordGenerator.rules h.resumed

theorem Mirrors.unpack_word (h : w.Mirrors g) :
    Progress.unpack w.word w.rules.layout.sequenceBits = g.progress := by
  rw [h.resumed]
  exact Progress.unpack_pack h.within

theorem Mirrors.decision_eq (h : w.Mirrors g) (now : UInt64) :
    decision w.rules w.word now = g.rules.respond g.progress now := by
  rw [decision, h.unpack_word, h.rules]

theorem Mirrors.commit (h : w.Mirrors g) {now : UInt64} {next : Progress} {stamp : Stamp}
    (decided : decision w.rules w.word now = .ok (.commit next stamp)) :
    g.attempt (.shows now) = (.ready stamp, { g with progress := next }) ∧
      Mirrors { w with word := next.pack w.rules.layout.sequenceBits }
        { g with progress := next } := by
  have response : g.rules.respond g.progress now = .ok (.commit next stamp) :=
    (h.decision_eq now).symm.trans decided
  refine ⟨by simp [LockedGenerator.attempt, h.sound, LockedGenerator.offer, response], ?_, ?_, ?_⟩
  · rw [h.resumed]
    rfl
  · exact Rules.within_of_commit response
  · exact h.sound

/-- At the start a word generator mirrors the locked generator that starts likewise. -/
theorem mirrors_of_startAt {c : Config} {worker : Int} {p : Progress}
    (started : startAt c worker p = .ok w) :
    ∃ g, LockedGenerator.startAt c worker p = .ok g ∧ w.Mirrors g := by
  rw [startAt_eq_map] at started
  cases locked : LockedGenerator.startAt c worker p with
  | error fault => rw [locked] at started; cases started
  | ok g =>
    rw [locked] at started
    obtain ⟨r, _, within, rfl⟩ := (LockedGenerator.startAt_eq_ok_iff ..).mp locked
    exact ⟨_, rfl, (Except.ok.inj started).symm, within, rfl⟩

theorem accepted_of_startAt {c : Config} {worker : Int} {p : Progress}
    (begun : startAt c worker p = .ok w) : Rules.ofConfig c worker = .ok w.rules := by
  obtain ⟨g, locked, mirrors⟩ := mirrors_of_startAt begun
  rw [mirrors.rules]
  exact LockedGenerator.accepted_of_startAt locked

end WordGenerator
end Tickstamp
