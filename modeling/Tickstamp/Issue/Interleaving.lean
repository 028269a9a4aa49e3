import Tickstamp.Issue.Word
/-!
# Polls that interleave

Several callers poll one generator on a shared word at the same time. A poll consists of three
moves: it loads the word, it reads the clock, and it concludes, which includes its compare-and-swap
if it has decided to commit. A poll whose clock breaks down ends there. Any list of moves is an
interleaving; a move that is not the next one of its caller does nothing. Each concluded poll leaves
a record of what it saw and what it was answered.
-/
namespace Tickstamp

inductive Stage where
  | idle
  | loaded (word : UInt64)
  | timed (word now : UInt64)
  deriving DecidableEq

/-- One atomic move of one caller. -/
inductive PollMove where
  | load (caller : Nat)
  | read (caller : Nat) (reading : Reading)
  | conclude (caller : Nat)
  deriving DecidableEq

/-- A poll that has come to its end. -/
structure PollRecord where
  caller : Nat
  /-- The word that the poll loaded. -/
  loaded : UInt64
  now : UInt64
  answer : Answer
  deriving DecidableEq

/-- A generator on a shared word with the callers that poll it. -/
structure Arena where
  generator : WordGenerator
  stage : Nat → Stage := fun _ => .idle

namespace Arena

def setStage (a : Arena) (caller : Nat) (s : Stage) : Arena :=
  { a with stage := fun other => if other = caller then s else a.stage other }

/-- One move, and the record of the poll that it ends. -/
def move (a : Arena) : PollMove → Option PollRecord × Arena
  | .load caller =>
    match a.stage caller with
    | .idle => (none, a.setStage caller (.loaded a.generator.word))
    | _ => (none, a)
  | .read caller reading =>
    match a.stage caller, reading with
    | .loaded word, .shows now => (none, a.setStage caller (.timed word now))
    | .loaded _, .breaksDown => (none, a.setStage caller .idle)
    | _, _ => (none, a)
  | .conclude caller =>
    match a.stage caller with
    | .timed word now =>
      let (answer, generator) := a.generator.conclude word now
      (some ⟨caller, word, now, answer⟩, { a with generator }.setStage caller .idle)
    | _ => (none, a)

/-- The records of an interleaving in the order of their ends, and the arena after it. -/
def run (a : Arena) : List PollMove → List PollRecord × Arena
  | [] => ([], a)
  | m :: rest =>
    let (record, a) := a.move m
    let (records, a) := a.run rest
    (record.toList ++ records, a)

/-- The moves of a poll that nobody overtakes. -/
def wholePoll (caller : Nat) (now : UInt64) : List PollMove :=
  [.load caller, .read caller (.shows now), .conclude caller]

/-- The three moves of an idle caller, made in a row, are one poll of the generator. -/
theorem run_wholePoll (a : Arena) (caller : Nat) (now : UInt64) (idle : a.stage caller = .idle) :
    (a.run (wholePoll caller now)).1 =
        [⟨caller, a.generator.word, now, (a.generator.offer (.shows now)).1⟩] ∧
      (a.run (wholePoll caller now)).2.generator = (a.generator.offer (.shows now)).2 := by
  simp [wholePoll, run, move, setStage, idle, WordGenerator.offer]

end Arena
end Tickstamp
