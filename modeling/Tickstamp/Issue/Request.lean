import Tickstamp.Issue.Call
/-!
# Requests to a generator

A caller asks a generator for one poll, or for a stamp that it is ready to wait for. A session is a
list of requests that are made one after the other on one clock; its responses tell how each of
them ended.
-/
namespace Tickstamp.Call

inductive Request (σ : Type) where
  | poll
  /-- One stamp, for which at most `more` polls are made after the first. -/
  | next (more : Nat) (backOff : UInt64 → σ → σ)

inductive Response where
  | polled (answer : Answer)
  /-- How a call for one stamp ended, and what its back-off was told before. -/
  | called (result : Except Halt Stamp) (waits : List UInt64)

variable {γ σ : Type}

def respond (poll : Poll γ σ) (g : γ) (clock : σ) : Request σ → Response × γ × σ
  | .poll =>
    let (answer, g, clock) := poll g clock
    (.polled answer, g, clock)
  | .next more backOff =>
    let one := next poll backOff (more + 1) g clock
    (.called one.result one.waits, one.generator, one.clock)

def session (poll : Poll γ σ) (g : γ) (clock : σ) : List (Request σ) → List Response × γ × σ
  | [] => ([], g, clock)
  | request :: rest =>
    let (response, g, clock) := respond poll g clock request
    let (responses, g, clock) := session poll g clock rest
    (response :: responses, g, clock)

theorem session_cons (poll : Poll γ σ) (g : γ) (clock : σ) (request : Request σ)
    (rest : List (Request σ)) :
    session poll g clock (request :: rest) =
      let first := respond poll g clock request
      let later := session poll first.2.1 first.2.2 rest
      (first.1 :: later.1, later.2) :=
  rfl

/-- A session goes on where an earlier part of it has ended. -/
theorem session_append (poll : Poll γ σ) (g : γ) (clock : σ) (earlier later : List (Request σ)) :
    session poll g clock (earlier ++ later) =
      let past := session poll g clock earlier
      let future := session poll past.2.1 past.2.2 later
      (past.1 ++ future.1, future.2) := by
  induction earlier generalizing g clock with
  | nil => rfl
  | cons request rest ih => simp [session_cons, ih]

end Tickstamp.Call
