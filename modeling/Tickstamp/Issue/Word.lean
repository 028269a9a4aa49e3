import Tickstamp.Clock
import Tickstamp.Issue.Answer
import Tickstamp.Issue.Rules
/-!
# The generator on one word

A generator whose progress is one word in shared memory. A poll loads the word, then reads the
clock, and commits with a compare-and-swap against the word that it loaded; if another poll
committed in between, the swap fails and the caller is told to try again at once. A clock that
breaks down leaves the word as it was. Loads and swaps are taken to be sequentially consistent.
-/
namespace Tickstamp

structure WordGenerator where
  rules : Rules
  word : UInt64
  deriving DecidableEq

namespace WordGenerator

def resume (rules : Rules) (p : Progress) : WordGenerator :=
  ⟨rules, p.pack rules.layout.sequenceBits⟩

def ofConfig (c : Config) (worker : Int) : Except Fault WordGenerator := do
  return resume (← Rules.ofConfig c worker) .fresh

def restore (c : Config) (worker : Int) (timestamp sequence : UInt64) :
    Except Fault WordGenerator := do
  let rules ← Rules.ofConfig c worker
  return resume rules (← rules.restore timestamp sequence)

/-- What a poll that loaded the word `loaded` decides at the reading `now`. -/
def decision (r : Rules) (loaded now : UInt64) : Except Fault Decision :=
  r.respond (.unpack loaded r.layout.sequenceBits) now

/-- The end of a poll that loaded the word `loaded` and read `now`: its compare-and-swap, if it
comes to that, meets the word as it is now. -/
def conclude (g : WordGenerator) (loaded now : UInt64) : Answer × WordGenerator :=
  match decision g.rules loaded now with
  | .ok (.commit next stamp) =>
    if g.word = loaded then
      (.ready stamp, { g with word := next.pack g.rules.layout.sequenceBits })
    else (.pending 0, g)
  | .ok (.wait millis) => (.pending millis, g)
  | .error fault => (.refused fault, g)

/-- One poll that nobody overtakes, at this reading. -/
def offer (g : WordGenerator) (reading : Reading) : Answer × WordGenerator :=
  match reading with
  | .breaksDown => (.abandoned, g)
  | .shows now => g.conclude g.word now

def poll {σ : Type} [Clock σ] (g : WordGenerator) (clock : σ) : Answer × WordGenerator × σ :=
  let (reading, clock) := Clock.read clock
  let (answer, g) := g.offer reading
  (answer, g, clock)

/-- A clock script, and the answers of the polls that overtook others, in the order of their ends. -/
structure Contest where
  script : Script
  overtakers : List Answer := []

/-- One poll along the lines of a script. A line that lets another poll overtake runs that poll on
the lines that follow, before it answers; a clock that breaks down there takes both with it. -/
def pollLines (g : WordGenerator) (step last : UInt64) :
    List Script.Line → Answer × WordGenerator × Contest
  | [] =>
    let now := saturatingAdd last step
    let (answer, g) := g.conclude g.word now
    (answer, g, { script := ⟨[], step, now⟩ })
  | .shows now :: rest =>
    let (answer, g) := g.conclude g.word now
    (answer, g, { script := ⟨rest, step, now⟩ })
  | .breaksDown :: rest => (.abandoned, g, { script := ⟨rest, step, last⟩ })
  | .overtaken now :: rest =>
    match g.pollLines step last rest with
    | (.abandoned, overtaken, contest) => (.abandoned, overtaken, contest)
    | (inner, overtaken, contest) =>
      let (answer, g) := overtaken.conclude g.word now
      (answer, g,
        { script := { contest.script with last := now }
          overtakers := contest.overtakers ++ [inner] })

def pollContested (g : WordGenerator) (c : Contest) : Answer × WordGenerator × Contest :=
  let (answer, g, after) := g.pollLines c.script.step c.script.last c.script.lines
  (answer, g, { after with overtakers := c.overtakers ++ after.overtakers })

end WordGenerator
end Tickstamp
