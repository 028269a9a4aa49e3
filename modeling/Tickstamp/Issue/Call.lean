import Tickstamp.Issue.Answer
/-!
# Calls

A call polls again and again until a poll is conclusive. Between two polls it backs off, for which
it tells the caller how long the generator asked it to wait. How often it polls is bounded by the
patience of the caller; a call that would never end runs out of it and has then changed nothing.
The calls work for every kind of generator, which they know by its poll.
-/
namespace Tickstamp.Call

/-- How a kind of generator `γ` is polled on a kind of clock `σ`. -/
abbrev Poll (γ σ : Type) := γ → σ → Answer × γ × σ

structure Outcome (γ σ : Type) where
  result : Except Halt Stamp
  /-- What the back-off was told, in order. -/
  waits : List UInt64
  generator : γ
  clock : σ

structure Batch (γ σ : Type) where
  /-- Every stamp that was issued, in order, whether or not the batch came to its end. -/
  issued : List Stamp
  /-- Why the batch did not come to its end. -/
  halt : Option Halt
  generator : γ
  clock : σ

variable {γ σ : Type}

/-- What the caller gets: a batch that did not come to its end yields nothing. -/
def Batch.result (b : Batch γ σ) : Except Halt (List Stamp) :=
  match b.halt with
  | none => .ok b.issued
  | some halt => .error halt

/-- One stamp, in at most `patience` polls. -/
def next (poll : Poll γ σ) (backOff : UInt64 → σ → σ) :
    (patience : Nat) → γ → σ → Outcome γ σ
  | 0, g, clock => ⟨.error .outOfPatience, [], g, clock⟩
  | patience + 1, g, clock =>
    match poll g clock with
    | (.ready stamp, g, clock) => ⟨.ok stamp, [], g, clock⟩
    | (.refused fault, g, clock) => ⟨.error (.refused fault), [], g, clock⟩
    | (.abandoned, g, clock) => ⟨.error .abandoned, [], g, clock⟩
    | (.pending millis, g, clock) =>
      let later := next poll backOff patience g (backOff millis clock)
      { later with waits := millis :: later.waits }

/-- A back-off that leaves the clock alone. -/
def idle (_ : UInt64) (clock : σ) : σ := clock

/-- `count` stamps after those in `done`, the latest of which stands in front. -/
def batchAfter (poll : Poll γ σ) (patience : Nat) (done : List Stamp) :
    (count : Nat) → γ → σ → Batch γ σ
  | 0, g, clock => ⟨done.reverse, none, g, clock⟩
  | count + 1, g, clock =>
    let one := next poll idle patience g clock
    match one.result with
    | .ok stamp => batchAfter poll patience (stamp :: done) count one.generator one.clock
    | .error halt => ⟨done.reverse, some halt, one.generator, one.clock⟩

/-- `count` stamps, one call after the other, up to the first call that fails. -/
def batch (poll : Poll γ σ) (patience count : Nat) (g : γ) (clock : σ) : Batch γ σ :=
  batchAfter poll patience [] count g clock

def polls (poll : Poll γ σ) : (times : Nat) → γ → σ → List Answer × γ × σ
  | 0, g, clock => ([], g, clock)
  | times + 1, g, clock =>
    let (answer, g, clock) := poll g clock
    let (answers, g, clock) := polls poll times g clock
    (answer :: answers, g, clock)

theorem polls_succ (poll : Poll γ σ) (times : Nat) (g : γ) (clock : σ) :
    polls poll (times + 1) g clock =
      let first := poll g clock
      let later := polls poll times first.2.1 first.2.2
      (first.1 :: later.1, later.2) :=
  rfl

/-- Polls go on where earlier ones have ended. -/
theorem polls_add (poll : Poll γ σ) (times more : Nat) (g : γ) (clock : σ) :
    polls poll (times + more) g clock =
      let past := polls poll times g clock
      let future := polls poll more past.2.1 past.2.2
      (past.1 ++ future.1, future.2) := by
  induction times generalizing g clock with
  | zero => rw [Nat.zero_add]; rfl
  | succ times ih => simp only [Nat.succ_add, polls_succ, ih, List.cons_append]

end Tickstamp.Call
