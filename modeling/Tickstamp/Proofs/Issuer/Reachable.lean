import Tickstamp.Proofs.Issue.Linearization
import Tickstamp.Proofs.Issuer.Standing

/-!
# States that a generator can come to

A locked generator comes to a state on its own, when it is made or restored and
then polled, or inside an issuer, after any bindings and polls. A generator on a word
is polled on its own only, but its polls may overlap. Either way it keeps rules
that its configuration accepts and a progress within the layout, and a word
generator stands where some locked generator stands. Poisoned locks are left out
here.
-/

namespace Tickstamp
namespace LockedGenerator

/-- The states of a locked generator with a sound lock under this configuration. -/
inductive Reachable (c : Config) : LockedGenerator → Prop where
  | polled {worker : Int} {start : Progress} {g : LockedGenerator}
      (begun : startAt c worker start = .ok g) (readings : List Reading)
      (sound : (g.after readings).poisoned = false) : Reachable c (g.after readings)
  /-- Other workers may have been bound before. -/
  | bound {k₀ k : Issuer} {happenings : List Happening} {g : LockedGenerator}
      (made : Issuer.ofConfig c = .ok k₀) (course : k₀.Reaches happenings k)
      (bound : k.bound = some g) (sound : g.poisoned = false) : Reachable c g

/-- A locked generator in good order: its rules are accepted, its progress is within the layout,
and its lock is sound. -/
structure Stands (c : Config) (g : LockedGenerator) : Prop where
  accepted : ∃ worker, Rules.ofConfig c worker = .ok g.rules
  within : g.progress.Within g.rules.layout
  sound : g.poisoned = false

variable {c : Config} {g : LockedGenerator}

theorem Stands.layout (h : Stands c g) : g.rules.layout = c.layout := by
  obtain ⟨_, accepted⟩ := h.accepted
  exact Rules.layout_eq accepted

theorem Stands.carryOver (h : Stands c g) : g.rules.carryOver = c.carryOver := by
  obtain ⟨_, accepted⟩ := h.accepted
  exact ((Rules.ofConfig_eq_ok_iff ..).mp accepted).2.2.2.2

theorem Stands.suited (h : Stands c g) : g.rules.Suited := by
  obtain ⟨_, accepted⟩ := h.accepted
  exact Rules.suited_of_ofConfig accepted

/-- A generator is in good order in whichever of these ways it has come to its state. -/
theorem Reachable.stands (h : Reachable c g) : Stands c g := by
  cases h with
  | @polled worker start g begun readings sound =>
    obtain ⟨r, accepted, within, rfl⟩ := (startAt_eq_ok_iff ..).mp begun
    have rules : (after ⟨r, start, false⟩ readings).rules = r := after_rules _ readings
    refine ⟨⟨worker, ?_⟩, ?_, sound⟩
    · rw [rules]
      exact accepted
    · rw [rules]
      exact within_after (g := ⟨r, start, false⟩) within readings
  | @bound k₀ k _ _ made course bound sound =>
    obtain ⟨lawful, config, nothing⟩ := Issuer.lawful_of_ofConfig made
    have leads := Issuer.leads_of_reaches lawful course
    have begins : k₀.Within := by
      intro g placed
      rw [Issuer.machine?, placed] at nothing
      cases nothing
    obtain ⟨worker, accepted⟩ := leads.lawful.rules g bound
    rw [leads.config, config] at accepted
    exact ⟨⟨worker, accepted⟩, Issuer.within_of_reaches lawful course begins g bound, sound⟩

end LockedGenerator
namespace WordGenerator

/-- The states of a generator on a word under this configuration. -/
inductive Reachable (c : Config) : WordGenerator → Prop where
  | polled {worker : Int} {start : Progress} {w : WordGenerator}
      (begun : startAt c worker start = .ok w) (readings : List Reading) :
      Reachable c (w.after readings)
  /-- Polls may have overlapped, and some of them may not have come to their end. -/
  | raced {worker : Int} {start : Progress} {w : WordGenerator}
      (begun : startAt c worker start = .ok w) (moves : List PollMove) :
      Reachable c (Arena.run { generator := w } moves).2.generator

theorem Reachable.mirrors {c : Config} {w : WordGenerator} (h : Reachable c w) :
    ∃ g, LockedGenerator.Stands c g ∧ w.Mirrors g := by
  cases h with
  | @polled worker start w begun readings =>
    obtain ⟨g, locked, mirrors⟩ := mirrors_of_startAt begun
    obtain ⟨g', rules, reached⟩ := mirrors.after readings
    refine ⟨g', ⟨⟨worker, ?_⟩, reached.within, reached.sound⟩, reached⟩
    rw [rules]
    exact LockedGenerator.accepted_of_startAt locked
  | @raced worker start w begun moves =>
    obtain ⟨g, locked, mirrors⟩ := mirrors_of_startAt begun
    have reached := (Arena.run_mirrors { generator := w } moves mirrors).2
    refine ⟨_, ⟨⟨worker, ?_⟩, reached.within, reached.sound⟩, reached⟩
    rw [LockedGenerator.after_rules]
    exact LockedGenerator.accepted_of_startAt locked

end WordGenerator
end Tickstamp
