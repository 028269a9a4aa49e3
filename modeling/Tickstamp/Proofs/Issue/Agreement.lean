import Tickstamp.Proofs.Issue.Response

/-!
# Both kinds of generator agree

Polled one after the other at the same readings, a locked generator and one on
a word that began alike give the same answers, the refusals and the waits
included. Nothing is said of polls that overlap, where a swap may fail, nor of
a clock that breaks down, which only a lock remembers.
-/

namespace Tickstamp

/-- Generators that answer these readings alike, and stay related meanwhile, have one history. -/
theorem history_related {γ δ : Type} {offer : γ → Reading → Answer × γ}
    {offer' : δ → Reading → Answer × δ} {Related : γ → δ → Prop} {readings : List Reading}
    (step : ∀ reading ∈ readings, ∀ g d, Related g d →
      (offer g reading).1 = (offer' d reading).1 ∧
        Related (offer g reading).2 (offer' d reading).2)
    {g : γ} {d : δ} (related : Related g d) :
    (history offer g readings).1 = (history offer' d readings).1 ∧
      Related (history offer g readings).2 (history offer' d readings).2 := by
  induction readings generalizing g d with
  | nil => exact ⟨rfl, related⟩
  | cons reading rest ih =>
    obtain ⟨first, step⟩ := List.forall_mem_cons.mp step
    obtain ⟨answer, after⟩ := first g d related
    obtain ⟨answers, last⟩ := ih step after
    rw [history, history]
    exact ⟨congrArg₂ List.cons answer answers, last⟩

theorem history_agree {γ δ : Type} {offer : γ → Reading → Answer × γ}
    {offer' : δ → Reading → Answer × δ} {Related : γ → δ → Prop}
    (step : ∀ g d now, Related g d → (offer g (.shows now)).1 = (offer' d (.shows now)).1 ∧
      Related (offer g (.shows now)).2 (offer' d (.shows now)).2)
    {g : γ} {d : δ} (related : Related g d) (readings : List UInt64) :
    (history offer g (readings.map .shows)).1 = (history offer' d (readings.map .shows)).1 ∧
      Related (history offer g (readings.map .shows)).2
        (history offer' d (readings.map .shows)).2 := by
  refine history_related ?_ related
  intro reading given g d related
  obtain ⟨now, _, rfl⟩ := List.mem_map.mp given
  exact step g d now related

namespace WordGenerator

variable {w : WordGenerator} {g : LockedGenerator}

theorem Mirrors.offer (h : w.Mirrors g) (now : UInt64) :
    (w.offer (.shows now)).1 = (g.attempt (.shows now)).1 ∧
      (w.offer (.shows now)).2.Mirrors (g.attempt (.shows now)).2 := by
  rw [h.offer_shows, LockedGenerator.attempt_shows h.sound]
  exact ⟨rfl, rfl, Rules.within_following h.within now, h.sound⟩

/-- Both kinds of generator are refused with the same fault, or both are made; and then, as long
as no poll is overtaken and no clock breaks down, they answer one poll after the other with the
same stamp, the same wait or the same fault. -/
theorem answers_agree (c : Config) (worker : Int) (start : Progress) :
    (∃ fault, LockedGenerator.startAt c worker start = .error fault ∧
      startAt c worker start = .error fault) ∨
    ∃ g w, LockedGenerator.startAt c worker start = .ok g ∧ startAt c worker start = .ok w ∧
      ∀ readings : List UInt64,
        w.answers (readings.map .shows) = g.answers (readings.map .shows) := by
  have alike := startAt_eq_map c worker start
  cases locked : LockedGenerator.startAt c worker start with
  | error fault =>
    rw [locked] at alike
    exact Or.inl ⟨fault, rfl, alike⟩
  | ok g =>
    rw [locked] at alike
    obtain ⟨g', same, mirrors⟩ := mirrors_of_startAt alike
    rw [locked] at same
    cases same
    refine Or.inr ⟨g, _, rfl, alike, ?_⟩
    intro readings
    exact (history_agree (fun _ _ now related => related.offer now) mirrors readings).1

end WordGenerator
end Tickstamp
