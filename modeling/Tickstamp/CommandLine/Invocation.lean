import Tickstamp.CommandLine.Arguments
import Tickstamp.Issuer.Basic
import Tickstamp.Text.Quoted
/-!
# Invocations

An invocation is a request with its settings turned into a configuration. Running it issues keys or
decodes them, one line each. Keys are written only after all of them have been issued; decoded lines
are written as far as they go. Whoever runs it takes every line: a writer that fails is not
modelled.

Between two readings of the clock an invocation stands at a `Phase`. A program that cannot hand its
clock over goes from phase to phase; `Invocation.run` follows a clock to the end.
-/
namespace Tickstamp.CommandLine

inductive Failure where
  /-- The three widths are no layout. -/
  | noLayout (fault : Fault)
  | refused (fault : Fault)
  | notIssued (halt : Halt)
  | notNumeric (input : String) (fault : Text.IntegerFault)
  deriving DecidableEq

namespace Failure

/-- The wording of a fault; the cause of a malformed key is said a second time. -/
def explain : Fault → String
  | .malformedKey cause => s!"{(Fault.malformedKey cause).message}: {cause.message}"
  | fault => fault.message

def message : Failure → String
  | .noLayout fault =>
    "TIMESTAMP_BITS, MACHINE_BITS and SEQUENCE_BITS do not form a valid layout: " ++ explain fault
  | .refused fault => explain fault
  | .notIssued (.refused fault) =>
    "set --worker-id or WORKER_ID to generate keys: " ++ explain fault
  | .notIssued .abandoned => "the clock broke down"
  | .notIssued .outOfPatience => "the clock stands still"
  | .notNumeric input fault => Text.quote input ++ " is not a numeric ID: " ++ fault.message

end Failure

structure Invocation where
  config : Config
  worker : Option Int
  command : Command

namespace Given

/-- The configuration of these settings; what nobody gives has its standard value. -/
def config (g : Given) : Except Failure Config := do
  let standard : Config := {}
  let layout ← (Layout.ofBits (g.timestampBits.getD 41) (g.machineBits.getD 10)
    (g.sequenceBits.getD 12)).mapError .noLayout
  let lag := match g.rollback.getD .wait with
    | .wait => LagPolicy.wait (g.maxDriftMillis.getD LagPolicy.standardLimit)
    | .fail => .fail
  let carryOver := match g.resetThreshold with
    | some threshold => CarryOver.upTo threshold
    | none => .half
  let config : Config := {
    epoch := g.epochMillis.getD standard.epoch
    layout
    asString := g.asString.getD false
    lag
    carryOver }
  config.validate.mapError .refused
  return config

end Given

structure Output where
  lines : List String
  failure : Option Failure := none
  deriving DecidableEq

/-- Stamps that are being issued on the system clock. -/
structure Job where
  issuer : Issuer
  clock : SystemClock
  /-- How many stamps are still to come. -/
  left : Nat
  /-- The stamps so far, the latest in front. -/
  done : List Stamp := []

inductive Phase where
  | finished (output : Output)
  /-- A reading is wanted, after so many milliseconds. -/
  | waits (millis : UInt64) (job : Job)

namespace Invocation

def ofRequest (r : Request) : Except Failure Invocation :=
  return { config := ← r.given.config, worker := r.given.workerId, command := r.command }

/-- The issuer of an invocation at the Unix time `now`, with its worker bound. -/
def issuer (i : Invocation) (now : UInt64) : Except Failure (Issuer × SystemClock) := do
  let (k, clock) ← (Issuer.ofSystemClock i.config now).mapError .refused
  match i.worker with
  | none => return (k, clock)
  | some worker =>
    match k.bindFrom (.ok worker) with
    | (.error fault, _) => throw (.refused fault)
    | (.ok _, k) => return (k, clock)

/-- Where a key comes from, in the form that the configuration asks for. -/
def decodeOne (k : Issuer) (input : String) : Except Failure Origin :=
  if k.config.asString then (k.decodeText input).mapError .refused
  else
    match Text.readNatural UInt64.size input with
    | .error fault => .error (.notNumeric input fault)
    | .ok n => (k.decode ⟨UInt64.ofNat n⟩).mapError .refused

/-- One line for every key, up to the first that cannot be decoded. -/
def decodeAll (k : Issuer) : List String → Output
  | [] => { lines := [] }
  | input :: rest =>
    match decodeOne k input with
    | .error failure => { lines := [], failure := some failure }
    | .ok origin =>
      let after := decodeAll k rest
      { after with lines := origin.text :: after.lines }

def issued (result : Except Halt (List Key)) : Output :=
  match result with
  | .ok keys => { lines := keys.map Key.display }
  | .error halt => { lines := [], failure := some (.notIssued halt) }

end Invocation

namespace Job

def phase (j : Job) : Phase :=
  if j.left = 0 then .finished (Invocation.issued (j.done.reverse.mapM j.issuer.keyOf))
  else .waits 0 j

/-- One poll, at a reading of the wall clock. -/
def poll (j : Job) (reading : Reading) : Phase :=
  match j.issuer.offer (j.clock.onWall reading) with
  | (.ready stamp, issuer) =>
    phase { j with issuer, left := j.left - 1, done := stamp :: j.done }
  | (.pending millis, issuer) => .waits millis { j with issuer }
  | (.refused fault, _) => .finished (Invocation.issued (.error (.refused fault)))
  | (.abandoned, _) => .finished (Invocation.issued (.error .abandoned))

end Job

namespace Invocation

/-- The phase of an invocation at its first reading, in Unix milliseconds, which tells whether the
epoch has come. -/
def start (i : Invocation) : Reading → Phase
  | .breaksDown => .finished { lines := [], failure := some (.notIssued .abandoned) }
  | .shows now =>
    match i.issuer now with
    | .error failure => .finished { lines := [], failure := some failure }
    | .ok (k, clock) =>
      match i.command with
      | .decode ids => .finished (decodeAll k ids)
      | .generate count =>
        match k.worker with
        | .error fault => .finished (issued (.error (.refused fault)))
        | .ok _ => Job.phase { issuer := k, clock, left := count.toNat }

/-- Runs an invocation on a source of wall-clock time in Unix milliseconds. After the first reading,
every poll takes one more; for each key at most `patience` polls are made. -/
def run {σ : Type} [Clock σ] (i : Invocation) (patience : Nat) (wall : σ) : Output :=
  let (reading, wall) := Clock.read wall
  match i.start reading with
  | .finished output => output
  | .waits _ j =>
    issued (j.issuer.generateKeys patience j.left ({ clock := j.clock, wall } : WallClock σ)).result

end Invocation
end Tickstamp.CommandLine
