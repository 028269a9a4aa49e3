import Tickstamp.Issuer.Basic
/-!
# An issuer shared by several callers

Callers work on one issuer at the same time. A batch keeps other workers from being bound from its
first poll to its last; its polls may come between those of other batches, one at a time. Binding
has to wait until no batch is under way, unless the configuration refuses the worker, which is said
at once. Any list of moves is a schedule; a move that cannot be made when its turn comes does
nothing. A single stamp is a batch of one.
-/
namespace Tickstamp

structure OpenBatch where
  caller : Nat
  /-- How many stamps are still to come. -/
  left : Nat
  /-- The stamps so far, the latest in front. -/
  done : List Stamp
  deriving DecidableEq

inductive SharedMove where
  | bind (caller : Nat) (worker : Int)
  | openBatch (caller count : Nat)
  | poll (caller : Nat) (reading : Reading)
  deriving DecidableEq

/-- What a move makes known. -/
inductive SharedEvent where
  | bound (caller : Nat) (result : Except Fault UInt64)
  /-- A stamp has been committed for a batch. -/
  | issued (caller : Nat) (stamp : Stamp)
  | returned (caller : Nat) (result : Except Halt (List Stamp))

/-- An issuer and the batches under way on it. -/
structure SharedIssuer where
  issuer : Issuer
  batches : List OpenBatch := []

def Issuer.refuses (k : Issuer) (worker : Int) : Bool :=
  !(Rules.ofConfig k.config worker).isOk

namespace SharedIssuer

def batchOf? (s : SharedIssuer) (caller : Nat) : Option OpenBatch :=
  s.batches.find? (·.caller == caller)

def closeBatch (s : SharedIssuer) (caller : Nat) : SharedIssuer :=
  { s with batches := s.batches.filter (·.caller != caller) }

/-- Puts a batch in the place of the one that its caller has. -/
def putBatch (s : SharedIssuer) (b : OpenBatch) : SharedIssuer :=
  { s with batches := b :: (s.closeBatch b.caller).batches }

/-- Begins a batch, unless its caller has one already; without a worker, and for no stamps, it ends
at once. -/
def startBatch (s : SharedIssuer) (caller count : Nat) : List SharedEvent × SharedIssuer :=
  match s.batchOf? caller, s.issuer.bound, count with
  | some _, _, _ => ([], s)
  | none, none, _ => ([.returned caller (.error (.refused .workerUnbound))], s)
  | none, some _, 0 => ([.returned caller (.ok [])], s)
  | none, some _, left => ([], s.putBatch ⟨caller, left, []⟩)

/-- Books the answer to a poll for a batch. -/
def settlePoll (s : SharedIssuer) (b : OpenBatch) : Answer → List SharedEvent × SharedIssuer
  | .pending _ => ([], s)
  | .refused fault => ([.returned b.caller (.error (.refused fault))], s.closeBatch b.caller)
  | .abandoned => ([.returned b.caller (.error .abandoned)], s.closeBatch b.caller)
  | .ready stamp =>
    if b.left ≤ 1 then
      ([.issued b.caller stamp, .returned b.caller (.ok (stamp :: b.done).reverse)],
        s.closeBatch b.caller)
    else
      ([.issued b.caller stamp], s.putBatch ⟨b.caller, b.left - 1, stamp :: b.done⟩)

def move (s : SharedIssuer) : SharedMove → List SharedEvent × SharedIssuer
  | .bind caller worker =>
    if s.batches.isEmpty || s.issuer.refuses worker then
      let (result, issuer) := s.issuer.bind worker
      ([.bound caller result], { s with issuer })
    else ([], s)
  | .openBatch caller count => s.startBatch caller count
  | .poll caller reading =>
    match s.batchOf? caller with
    | none => ([], s)
    | some b =>
      let (answer, issuer) := s.issuer.offer reading
      { s with issuer }.settlePoll b answer

/-- What a schedule makes known, in order, and the issuer after it. -/
def run (s : SharedIssuer) : List SharedMove → List SharedEvent × SharedIssuer
  | [] => ([], s)
  | m :: rest =>
    let (events, s) := s.move m
    let (later, s) := s.run rest
    (events ++ later, s)

end SharedIssuer
end Tickstamp
