import Tickstamp.Issue.Call
import Tickstamp.Issue.Locked
/-!
# Callers of one locked generator

Several callers share a locked generator and its clock. Each of them has a number of calls to make,
one after the other, and a call polls until an answer is conclusive. In a turn a caller takes the
lock, polls once and gives the lock back, so that the turns of other callers may come between two
polls of a call. Any list of callers is a schedule; a caller with no call to make lets its turn
pass.
-/
namespace Tickstamp

/-- The result of a call that ends with this answer; a call that is told to wait goes on. -/
def Answer.result? : Answer → Option (Except Halt Stamp)
  | .ready stamp => some (.ok stamp)
  | .refused fault => some (.error (.refused fault))
  | .abandoned => some (.error .abandoned)
  | .pending _ => none

/-- A call that has come to its end. -/
structure CallRecord where
  caller : Nat
  result : Except Halt Stamp

/-- The results of one caller, in order. -/
def CallRecord.resultsOf (caller : Nat) (records : List CallRecord) : List (Except Halt Stamp) :=
  (records.filter (·.caller == caller)).map (·.result)

structure Queue (σ : Type) where
  generator : LockedGenerator
  clock : σ
  /-- How many calls each caller still has to end, the one under way included. -/
  left : List Nat

namespace Queue

variable {σ : Type} [Clock σ]

/-- A turn of one caller, and the record of the call that it ends. -/
def turn (q : Queue σ) (caller : Nat) : Option CallRecord × Queue σ :=
  match q.left[caller]? with
  | none | some 0 => (none, q)
  | some (more + 1) =>
    let (answer, generator, clock) := q.generator.poll q.clock
    match answer.result? with
    | none => (none, { q with generator, clock })
    | some result => (some ⟨caller, result⟩, { generator, clock, left := q.left.set caller more })

/-- The records under a schedule in the order of their ends, and the queue after it. -/
def run (q : Queue σ) : List Nat → List CallRecord × Queue σ
  | [] => ([], q)
  | caller :: rest =>
    let (record, q) := q.turn caller
    let (records, q) := q.run rest
    (record.toList ++ records, q)

end Queue
end Tickstamp
