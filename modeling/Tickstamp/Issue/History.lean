import Tickstamp.Issue.Locked
import Tickstamp.Issue.Word
/-!
# Histories

The answers of a generator to polls at readings that are given one by one. Both kinds of generator
are driven by the same function, so their histories can be compared answer by answer. A poisoned
lock still uses up a reading here, which it does not on a clock.
-/
namespace Tickstamp

def Answer.stamp? : Answer → Option Stamp
  | .ready stamp => some stamp
  | .pending _ | .refused _ | .abandoned => none

def Answer.stamps (answers : List Answer) : List Stamp :=
  answers.filterMap Answer.stamp?

/-- The answers to polls at these readings, and the generator after them. -/
def history {γ : Type} (offer : γ → Reading → Answer × γ) :
    γ → List Reading → List Answer × γ
  | g, [] => ([], g)
  | g, reading :: rest =>
    let (answer, g) := offer g reading
    let (answers, g) := history offer g rest
    (answer :: answers, g)

theorem history_cons {γ : Type} (offer : γ → Reading → Answer × γ) (g : γ) (reading : Reading)
    (rest : List Reading) :
    history offer g (reading :: rest) =
      ((offer g reading).1 :: (history offer (offer g reading).2 rest).1,
        (history offer (offer g reading).2 rest).2) :=
  rfl

/-- A history goes on where an earlier part of it has ended. -/
theorem history_append {γ : Type} (offer : γ → Reading → Answer × γ) (g : γ)
    (earlier later : List Reading) :
    history offer g (earlier ++ later) =
      ((history offer g earlier).1 ++ (history offer (history offer g earlier).2 later).1,
        (history offer (history offer g earlier).2 later).2) := by
  induction earlier generalizing g with
  | nil => rfl
  | cons reading rest ih => simp [history, ih]

theorem length_history {γ : Type} (offer : γ → Reading → Answer × γ) (g : γ)
    (readings : List Reading) : (history offer g readings).1.length = readings.length := by
  induction readings generalizing g with
  | nil => rfl
  | cons reading rest ih => simp [history, ih]

namespace LockedGenerator

def answers (g : LockedGenerator) (readings : List Reading) : List Answer :=
  (history attempt g readings).1

def after (g : LockedGenerator) (readings : List Reading) : LockedGenerator :=
  (history attempt g readings).2

end LockedGenerator

namespace WordGenerator

/-- The answers to polls at these readings, none of which is overtaken. -/
def answers (g : WordGenerator) (readings : List Reading) : List Answer :=
  (history offer g readings).1

def after (g : WordGenerator) (readings : List Reading) : WordGenerator :=
  (history offer g readings).2

end WordGenerator
end Tickstamp
