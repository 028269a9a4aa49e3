import Tickstamp.Proofs.Issue.Outcome
import Tickstamp.Proofs.Issuer.Rebinding

/-!
# Every poll is settled

Whatever has been asked of a generator before, what it remembers is within its
layout, so the reading alone settles its next poll. A generator inside an issuer
may have begun from the used-up tick of another worker, which is within the
layout as well. A clock that breaks down does not move the progress, but it
poisons a lock, and of a poisoned lock nothing is said here. Polls that overlap
are left out.
-/

namespace Tickstamp
namespace LockedGenerator

/-- The answer to a poll at this reading, and the progress after it. -/
def pollAt (g : LockedGenerator) (now : UInt64) : Answer × Progress :=
  ((g.attempt (.shows now)).1, (g.attempt (.shows now)).2.progress)

theorem settles {g : LockedGenerator} (suited : g.rules.Suited)
    (within : g.progress.Within g.rules.layout) (sound : g.poisoned = false) :
    g.rules.Settles g.progress g.pollAt := by
  have handsOn : g.pollAt = fun now => (.ofResponse (g.rules.respond g.progress now),
      g.progress.following (g.rules.respond g.progress now)) := by
    funext now
    rw [pollAt, attempt_shows sound]
  rw [handsOn]
  exact Rules.settles suited within

theorem within_attempt {g : LockedGenerator} (within : g.progress.Within g.rules.layout)
    (reading : Reading) : (g.attempt reading).2.progress.Within g.rules.layout := by
  rcases g.attempt_cases reading with ⟨_, _, _, _, _, response, commit⟩ | ⟨_, _, same⟩
  · rw [commit]
    exact Rules.within_of_commit response
  · rw [same]
    exact within

theorem within_after {g : LockedGenerator} (within : g.progress.Within g.rules.layout)
    (readings : List Reading) :
    (g.after readings).progress.Within g.rules.layout := by
  induction readings generalizing g with
  | nil => exact within
  | cons reading rest ih =>
    have kept := within_attempt within reading
    rw [← g.attempt_rules reading] at kept ⊢
    exact ih kept

end LockedGenerator
namespace WordGenerator

/-- The answer to a poll at this reading, and the progress that the word stands for after it. -/
def pollAt (w : WordGenerator) (now : UInt64) : Answer × Progress :=
  ((w.offer (.shows now)).1, (w.offer (.shows now)).2.progress)

variable {w : WordGenerator} {g : LockedGenerator}

theorem Mirrors.settles (h : w.Mirrors g) (suited : g.rules.Suited) :
    w.rules.Settles w.progress w.pollAt := by
  have handsOn : w.pollAt = g.pollAt := by
    funext now
    obtain ⟨answer, after⟩ := h.offer now
    rw [pollAt, LockedGenerator.pollAt, answer]
    exact congrArg _ after.unpack_word
  have present : w.progress = g.progress := h.unpack_word
  rw [handsOn, present, h.rules]
  exact LockedGenerator.settles suited h.within h.sound

/-- After any polls a word generator mirrors a locked one, though not always the one that has read
the same clock: a clock that breaks down leaves the word alone. -/
theorem Mirrors.after (h : w.Mirrors g) (readings : List Reading) :
    ∃ g', g'.rules = g.rules ∧ (w.after readings).Mirrors g' := by
  induction readings generalizing w g with
  | nil => exact ⟨g, rfl, h⟩
  | cons reading rest ih =>
    cases reading with
    | breaksDown => exact ih h
    | shows now =>
      obtain ⟨g', rules, mirrors⟩ := ih (h.offer now).2
      exact ⟨g', rules.trans (g.attempt_rules _), mirrors⟩

end WordGenerator
namespace Issuer

/-- The generator of the issuer, if it has one, remembers what is within the layout. -/
def Within (k : Issuer) : Prop :=
  ∀ g, k.bound = some g → g.progress.Within g.rules.layout

/-- The used-up tick from which a new worker goes on is within the layout. -/
theorem within_bind {k : Issuer} (lawful : k.Lawful) (within : k.Within) (worker : Int) :
    (k.bind worker).2.Within := by
  rcases k.bind_cases worker with
    ⟨_, refused⟩ | ⟨_, _, same⟩ | ⟨rules, progress, accepted, placed, origin⟩
  · rw [refused]
    exact within
  · rw [same]
    exact within
  · rw [placed]
    rintro _ ⟨⟩
    rw [Rules.layout_eq accepted]
    rcases origin with ⟨_, rfl⟩ | ⟨g, bound, _, _, rfl⟩
    · trivial
    · have former := within g bound
      rw [lawful.layout bound] at former
      cases last : g.progress with
      | fresh => trivial
      | issued timestamp sequence =>
        rw [last] at former
        exact ⟨former.1, UInt64.le_refl _⟩

theorem within_offer {k : Issuer} (within : k.Within) (reading : Reading) :
    (k.offer reading).2.Within := by
  cases bound : k.bound with
  | none =>
    rw [offer, bound]
    exact within
  | some g =>
    rw [offer_of_bound bound]
    rintro _ ⟨⟩
    rw [g.attempt_rules]
    exact LockedGenerator.within_attempt (within g bound) reading

theorem within_of_reaches {k k' : Issuer} {happenings : List Happening} (lawful : k.Lawful)
    (course : k.Reaches happenings k') (within : k.Within) : k'.Within := by
  induction course with
  | refl => exact within
  | bind before worker ih => exact within_bind (leads_of_reaches lawful before).lawful ih worker
  | poll _ reading ih => exact within_offer ih reading

end Issuer

/-- In every state that a generator can come to without polls that overlap, the reading settles
the next poll: beyond the layout, behind the last stamp, in a tick that is used up, or open. This
holds of both kinds of generator, fresh or restored, after any polls, and of the one inside an
issuer after any bindings and polls, as long as no clock has broken down under the lock. -/
theorem polls_settled :
    (∀ (c : Config) (worker : Int) (start : Progress) (g : LockedGenerator),
      LockedGenerator.startAt c worker start = .ok g → ∀ readings : List Reading,
        let reached := g.after readings
        reached.poisoned = false →
          Rules.ofConfig c worker = .ok reached.rules ∧
            reached.rules.Settles reached.progress reached.pollAt) ∧
    (∀ (c : Config) (worker : Int) (start : Progress) (w : WordGenerator),
      WordGenerator.startAt c worker start = .ok w → ∀ readings : List Reading,
        let reached := w.after readings
        Rules.ofConfig c worker = .ok reached.rules ∧
          reached.rules.Settles reached.progress reached.pollAt) ∧
    ∀ (c : Config) (k₀ k : Issuer) (happenings : List Happening) (g : LockedGenerator),
      Issuer.ofConfig c = .ok k₀ → k₀.Reaches happenings k → k.bound = some g →
        g.poisoned = false →
          (∃ worker, Rules.ofConfig c worker = .ok g.rules) ∧
            g.rules.Settles g.progress g.pollAt := by
  refine ⟨?_, ?_, ?_⟩
  · intro c worker start g begun readings reached sound
    obtain ⟨r, accepted, within, rfl⟩ := (LockedGenerator.startAt_eq_ok_iff ..).mp begun
    have rules : reached.rules = r := LockedGenerator.after_rules _ readings
    have inside : reached.progress.Within reached.rules.layout := by
      rw [rules]
      exact LockedGenerator.within_after (g := ⟨r, start, false⟩) within readings
    rw [← rules] at accepted
    exact ⟨accepted, LockedGenerator.settles (Rules.suited_of_ofConfig accepted) inside sound⟩
  · intro c worker start w begun readings reached
    obtain ⟨g, locked, mirrors⟩ := WordGenerator.mirrors_of_startAt begun
    obtain ⟨g', rules, final⟩ := mirrors.after readings
    have accepted : Rules.ofConfig c worker = .ok g'.rules := by
      rw [rules]
      exact LockedGenerator.accepted_of_startAt locked
    have settled := final.settles (Rules.suited_of_ofConfig accepted)
    rw [← final.rules] at accepted
    exact ⟨accepted, settled⟩
  · intro c k₀ k happenings g made course bound sound
    obtain ⟨lawful, config, _⟩ := Issuer.lawful_of_ofConfig made
    have leads := Issuer.leads_of_reaches lawful course
    have nothingBound : k₀.Within := by
      obtain ⟨_, _, done⟩ := Fault.bind_eq_ok_iff.mp made
      cases done
      rintro _ ⟨⟩
    have inside := Issuer.within_of_reaches lawful course nothingBound g bound
    obtain ⟨worker, accepted⟩ := leads.lawful.rules g bound
    have settled := LockedGenerator.settles (Rules.suited_of_ofConfig accepted) inside sound
    rw [leads.config, config] at accepted
    exact ⟨⟨worker, accepted⟩, settled⟩

/-- A reading beyond the layout after a restart, a tick used up on a word whose clock has broken
down before, and the tick that another worker has left to the next. -/
theorem polls_settled_after_rebinding :
    (∃ g, LockedGenerator.startAt {} 7 (.issued 5 4095) = .ok g ∧
      (g.after [.shows 6]).pollAt 2199023255552 =
        (.refused (.fieldTooLarge .timestamp 2199023255552 2199023255551), .issued 6 0)) ∧
    (∃ w, WordGenerator.startAt {} 7 (.issued 5 4094) = .ok w ∧
      (w.after [.breaksDown, .shows 5]).pollAt 5 = (.pending 1, .issued 5 4095)) ∧
    ∃ k happenings g, Issuer.Reaches { config := {} } happenings k ∧ k.bound = some g ∧
      g.rules.machine = 8 ∧ g.pollAt 5 = (.pending 1, .issued 5 4095) := by
  refine ⟨?_, ?_, ?_⟩
  · have begun : LockedGenerator.startAt {} 7 (.issued 5 4095) = .ok _ := rfl
    obtain ⟨_, settled⟩ := polls_settled.1 {} 7 _ _ begun [.shows 6] rfl
    exact ⟨_, begun, settled.beyond 2199023255552 (by decide)⟩
  · have begun : WordGenerator.startAt {} 7 (.issued 5 4094) = .ok _ := rfl
    obtain ⟨_, settled⟩ := polls_settled.2.1 {} 7 _ _ begun [.breaksDown, .shows 5]
    exact ⟨_, begun, settled.usedUp 5 (by decide) (by decide)⟩
  · have made : Issuer.ofConfig {} = .ok { config := {} } := rfl
    have course := ((Issuer.reaches_bind { config := {} } 7).poll (.shows 5)).bind 8
    obtain ⟨_, settled⟩ := polls_settled.2.2 {} _ _ _ _ made course rfl rfl
    exact ⟨_, _, _, course, rfl, rfl, settled.usedUp 5 (by decide) rfl⟩

end Tickstamp
