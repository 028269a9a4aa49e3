import Tickstamp.Issue.Call
/-!
# Tallies

A tally sums up a burst of polls: how many stamps, waits and refusals there were, the first and the
last stamp, and how the stamps fall into the residue classes modulo 4, which shows at a glance
whether sequences spread evenly.
-/
namespace Tickstamp

structure Tally where
  ready : Nat := 0
  pending : Nat := 0
  refused : Nat := 0
  first : Option Stamp := none
  last : Option Stamp := none
  /-- How many stamps leave the remainders 0, 1, 2, 3 modulo 4. -/
  residues : List Nat := [0, 0, 0, 0]

namespace Tally

/-- The tally with one more answer; an abandoned poll leaves nothing to count. -/
def add (t : Tally) : Answer → Tally
  | .ready stamp =>
    { t with
      ready := t.ready + 1
      first := t.first <|> some stamp
      last := some stamp
      residues := t.residues.modify (stamp.word.toNat % 4) (· + 1) }
  | .pending _ => { t with pending := t.pending + 1 }
  | .refused _ => { t with refused := t.refused + 1 }
  | .abandoned => t

/-- Polls `times` times on top of a tally; a clock that breaks down ends the burst without one. -/
def burst {γ σ : Type} (poll : Call.Poll γ σ) (t : Tally) :
    (times : Nat) → γ → σ → Option Tally × γ × σ
  | 0, g, clock => (some t, g, clock)
  | times + 1, g, clock =>
    match poll g clock with
    | (.abandoned, g, clock) => (none, g, clock)
    | (answer, g, clock) => burst poll (t.add answer) times g clock

end Tally
end Tickstamp
