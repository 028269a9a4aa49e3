import Tickstamp.Layout
/-!
# Policies

Two settings decide what a generator does between ticks: how far the clock may lag behind the last
stamp before a call is refused, and how much of the sequence is carried over when the clock moves
on. Neither can influence the order of stamps; a policy only chooses among answers that keep it.
-/
namespace Tickstamp

/-- What to do when the clock reads less than the timestamp of the last stamp. -/
inductive LagPolicy where
  /-- Wait for the clock to catch up, if it is not further behind than this. -/
  | wait (limit : UInt64)
  | fail
  deriving DecidableEq

namespace LagPolicy

def standardLimit : UInt64 := 2000

instance : Inhabited LagPolicy := ⟨.wait standardLimit⟩

/-- How long to wait for a clock that is behind by `drift`. -/
def waitFor (p : LagPolicy) (drift : UInt64) : Except Fault UInt64 :=
  match p with
  | .wait limit => if drift ≤ limit then .ok drift else .error (.clockBehind drift)
  | .fail => .error (.clockBehind drift)

end LagPolicy

/-- Where the sequence goes on in a new tick. If it always began at zero, the low bits of sparse
stamps would be all alike; so it runs on from tick to tick until it has reached a threshold. -/
inductive CarryOver where
  | never
  /-- The sequence runs on until it has reached this threshold. -/
  | upTo (threshold : UInt64)
  /-- The sequence runs on through the lower half of its range. -/
  | half
  deriving DecidableEq

namespace CarryOver

instance : Inhabited CarryOver := ⟨.half⟩

def halfOf (l : Layout) : CarryOver :=
  .upTo (lowMask (l.sequenceBits - 1))

/-- Refuses a threshold that the sequence never reaches. -/
def validate (c : CarryOver) (l : Layout) : Except Fault Unit :=
  match c with
  | .upTo threshold =>
    if threshold ≤ l.maxSequence then .ok ()
    else .error (.misconfigured (.thresholdTooLarge threshold l.maxSequence))
  | .never | .half => .ok ()

/-- The sequence at which a tick begins after one that ended at `previous`. -/
def start (c : CarryOver) (previous maxSequence : UInt64) : UInt64 :=
  match c with
  | .never => 0
  | .upTo threshold => if threshold ≤ previous then 0 else previous + 1
  | .half => if maxSequence >>> 1 ≤ previous then 0 else previous + 1

end CarryOver
end Tickstamp
