import Tickstamp.Issue.History
import Tickstamp.Issuer.Chronicle

/-!
# Courses of an issuer

Two moves can change an issuer: a worker is bound, or the bound generator is
polled once. A course is any row of them, with what they bring about together.
What holds at the start and is kept by both moves holds at the end of every
course. Where the readings of its polls come from is left open.
-/

namespace Tickstamp
namespace Issuer

/-- Bindings and polls that lead from one state of an issuer to another, with what they bring
about. -/
inductive Reaches (k : Issuer) : List Happening → Issuer → Prop where
  | refl : Reaches k [] k
  | bind {happenings : List Happening} {k' : Issuer} (before : Reaches k happenings k')
      (worker : Int) :
      Reaches k (happenings ++ boundBy (k'.bind worker).1) (k'.bind worker).2
  | poll {happenings : List Happening} {k' : Issuer} (before : Reaches k happenings k')
      (reading : Reading) :
      Reaches k (happenings ++ (k'.offer reading).1.stamp?.toList.map .issued)
        (k'.offer reading).2

theorem Reaches.trans {k k' k'' : Issuer} {earlier later : List Happening}
    (first : k.Reaches earlier k') (second : k'.Reaches later k'') :
    k.Reaches (earlier ++ later) k'' := by
  induction second with
  | refl =>
    rw [List.append_nil]
    exact first
  | bind _ worker ih =>
    rw [← List.append_assoc]
    exact ih.bind worker
  | poll _ reading ih =>
    rw [← List.append_assoc]
    exact ih.poll reading

theorem reaches_bind (k : Issuer) (worker : Int) :
    k.Reaches (boundBy (k.bind worker).1) (k.bind worker).2 :=
  Reaches.refl.bind worker

theorem reaches_offer (k : Issuer) (reading : Reading) :
    k.Reaches ((k.offer reading).1.stamp?.toList.map .issued) (k.offer reading).2 :=
  Reaches.refl.poll reading

theorem with_bound {k : Issuer} {g : LockedGenerator} (bound : k.bound = some g) :
    { k with bound := some g } = k := by
  rw [← bound]

/-- A bound issuer hands a poll on to its generator. -/
theorem offer_of_bound {k : Issuer} {g : LockedGenerator} (bound : k.bound = some g)
    (reading : Reading) :
    k.offer reading = ((g.attempt reading).1, { k with bound := some (g.attempt reading).2 }) := by
  simp [offer, bound]

/-- A batch of no stamps leaves everything alone. -/
theorem generateBatch_zero {k : Issuer} {g : LockedGenerator} (bound : k.bound = some g)
    {σ : Type} [Clock σ] (patience : Nat) (clock : σ) :
    k.generateBatch patience 0 clock = ⟨.ok [], [], k, clock⟩ := by
  simp [generateBatch, bound, Call.batch, Call.batchAfter, Call.Batch.result, with_bound bound]

end Issuer
end Tickstamp
