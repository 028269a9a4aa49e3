import Tickstamp.Config
import Tickstamp.Issue.Progress
/-!
# Rules of issue

The rules of one generator fix its layout, its machine number and its policies. `Rules.respond` is the
whole decision: from the progress and one reading it either commits a stamp, or asks the caller to
wait, or refuses. Only a commit carries a new progress, so the other two leave no trace.
-/
namespace Tickstamp

/-- What a generator never changes. -/
structure Rules where
  layout : Layout
  machine : UInt64
  lag : LagPolicy
  carryOver : CarryOver
  deriving DecidableEq

/-- A response that is not a refusal. -/
inductive Decision where
  | commit (next : Progress) (stamp : Stamp)
  | wait (millis : UInt64)
  deriving DecidableEq

namespace Rules

/-- The rules for a worker under a configuration. The configuration is checked before the worker. -/
def ofConfig (c : Config) (worker : Int) : Except Fault Rules := do
  c.validate
  let machine ← c.layout.machineOf worker
  return ⟨c.layout, machine, c.lag, c.carryOver⟩

/-- The progress of a generator whose last stamp had this timestamp and sequence. -/
def restore (r : Rules) (timestamp sequence : UInt64) : Except Fault Progress := do
  let _ ← r.layout.encode ⟨timestamp, r.machine, sequence⟩
  return .issued timestamp sequence

def respond (r : Rules) (p : Progress) (now : UInt64) : Except Fault Decision :=
  match p.advance now r.layout.maxSequence r.carryOver with
  | .issue timestamp sequence =>
    (r.layout.encode ⟨timestamp, r.machine, sequence⟩).map
      (.commit (.issued timestamp sequence))
  | .exhausted => .ok (.wait 1)
  | .behind drift => (r.lag.waitFor drift).map .wait

end Rules
end Tickstamp
