import Tickstamp.Clock
import Tickstamp.Issue.Answer
import Tickstamp.Issue.Rules
/-!
# The locked generator

A generator whose progress is guarded by a lock. The clock is read while the lock is held, so a
reading is never older than the progress that it is compared with. A clock that breaks down at that
moment poisons the lock: from then on every poll is refused before the clock is read, and nothing
is issued again.
-/
namespace Tickstamp

structure LockedGenerator where
  rules : Rules
  progress : Progress
  poisoned : Bool := false
  deriving DecidableEq

namespace LockedGenerator

def ofConfig (c : Config) (worker : Int) : Except Fault LockedGenerator := do
  return { rules := ← Rules.ofConfig c worker, progress := .fresh }

/-- A generator that goes on after a stamp with this timestamp and sequence. -/
def restore (c : Config) (worker : Int) (timestamp sequence : UInt64) :
    Except Fault LockedGenerator := do
  let rules ← Rules.ofConfig c worker
  return { rules, progress := ← rules.restore timestamp sequence }

/-- The progress, if the lock can still be taken. -/
def progress? (g : LockedGenerator) : Except Fault Progress :=
  if g.poisoned then .error .lockPoisoned else .ok g.progress

def offer (g : LockedGenerator) (reading : Reading) : Answer × LockedGenerator :=
  match reading with
  | .breaksDown => (.abandoned, { g with poisoned := true })
  | .shows now =>
    match g.rules.respond g.progress now with
    | .ok (.commit next stamp) => (.ready stamp, { g with progress := next })
    | .ok (.wait millis) => (.pending millis, g)
    | .error fault => (.refused fault, g)

/-- One poll at this reading, which is of no account if the lock is poisoned. -/
def attempt (g : LockedGenerator) (reading : Reading) : Answer × LockedGenerator :=
  if g.poisoned then (.refused .lockPoisoned, g) else g.offer reading

/-- One poll. A poisoned lock is noticed before the clock is read. -/
def poll {σ : Type} [Clock σ] (g : LockedGenerator) (clock : σ) : Answer × LockedGenerator × σ :=
  if g.poisoned then (.refused .lockPoisoned, g, clock)
  else
    let (reading, clock) := Clock.read clock
    let (answer, g) := g.offer reading
    (answer, g, clock)

end LockedGenerator
end Tickstamp
