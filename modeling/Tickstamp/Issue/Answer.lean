import Tickstamp.Fault
import Tickstamp.Stamp
/-!
# Answers

A poll asks a generator once and never waits. A call polls until an answer is conclusive; it may
also be abandoned with the clock, or run out of the polls that its caller was willing to pay for.
-/
namespace Tickstamp

inductive Answer where
  | ready (stamp : Stamp)
  /-- Nothing yet: poll again after so many milliseconds, at once if zero. -/
  | pending (millis : UInt64)
  | refused (fault : Fault)
  /-- The clock broke down while it was read. -/
  | abandoned
  deriving DecidableEq

inductive Halt where
  | refused (fault : Fault)
  | abandoned
  /-- No answer was conclusive within the patience of the caller. -/
  | outOfPatience
  deriving DecidableEq

/-- A call that was cut short says nothing else; a fault is a refusal. -/
def Halt.ofExcept {α : Type} : Except Fault α → Except Halt α
  | .ok a => .ok a
  | .error fault => .error (.refused fault)

/-- A conversion that fails for none of these items. -/
theorem Halt.mapM_eq_ok {α β : Type} {convert : α → Except Halt β} {form : α → β}
    {items : List α} (has : ∀ a ∈ items, convert a = .ok (form a)) :
    items.mapM convert = .ok (items.map form) := by
  induction items with
  | nil => rfl
  | cons a rest ih =>
    obtain ⟨first, others⟩ := List.forall_mem_cons.mp has
    rw [List.mapM_cons, first, ih others]
    rfl

end Tickstamp
