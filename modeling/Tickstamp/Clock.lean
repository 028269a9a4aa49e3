import Tickstamp.Config
/-!
# Clocks

A clock is anything that gives one reading after another; nothing is assumed about their order.
A reading counts milliseconds from the epoch of the generator that asks for it. `Script` is a clock
whose behaviour is written down in advance, and `SystemClock` turns wall-clock time into readings.
-/
namespace Tickstamp

inductive Reading where
  | shows (now : UInt64)
  /-- The time source breaks down, and the call that asked is abandoned. -/
  | breaksDown
  deriving DecidableEq

class Clock (σ : Type) where
  read : σ → Reading × σ

/-- A sequence of readings without end. -/
instance : Clock (Nat → Reading) where
  read readings := (readings 0, fun n => readings (n + 1))

/-- The sum, or the largest word if the sum does not fit. -/
def saturatingAdd (a b : UInt64) : UInt64 :=
  if a.toNat + b.toNat < UInt64.size then a + b else 0xFFFFFFFFFFFFFFFF

inductive Script.Line where
  | shows (now : UInt64)
  | breaksDown
  /-- Before the clock answers, some other call on the same generator runs from start to end. -/
  | overtaken (now : UInt64)
  deriving DecidableEq

/-- A clock that follows its lines, and then goes on from its last answer in equal steps. -/
structure Script where
  lines : List Script.Line := []
  step : UInt64 := 0
  last : UInt64 := 0

namespace Script

/-- Asks a script for the time when no other call can come in between. -/
def read (s : Script) : Reading × Script :=
  match s.lines with
  | [] =>
    let now := saturatingAdd s.last s.step
    (.shows now, { s with last := now })
  | .shows now :: rest => (.shows now, { s with lines := rest, last := now })
  | .overtaken now :: rest => (.shows now, { s with lines := rest, last := now })
  | .breaksDown :: rest => (.breaksDown, { s with lines := rest })

instance : Clock Script := ⟨read⟩

/-- The script after a pause in which time went on: no line is left of what would have been read. -/
def skip (s : Script) (millis : UInt64) : Script :=
  { s with lines := [], last := saturatingAdd s.last millis }

/-- The same clock with another future. -/
def withFuture (s : Script) (lines : List Line) (step : UInt64) : Script :=
  { s with lines, step }

end Script

structure SystemClock where
  epoch : UInt64
  deriving DecidableEq

namespace SystemClock

/-- A clock for an epoch in seconds and nanoseconds, at the Unix time `now` in milliseconds. -/
def withEpoch (seconds nanos : Nat) (now : UInt64) : Except Fault SystemClock :=
  let millis := seconds * 1000 + nanos / 1000000
  if UInt64.size ≤ millis then .error (.misconfigured .epochTooLong)
  else if millis = 0 then .error (.misconfigured .zeroEpoch)
  else if now.toNat < millis then
    .error (.misconfigured (.epochInFuture (UInt64.ofNat millis) now))
  else .ok ⟨UInt64.ofNat millis⟩

/-- The reading at a moment of Unix time; before the epoch it is zero. -/
def reading (c : SystemClock) (unixMillis : UInt64) : UInt64 :=
  if c.epoch ≤ unixMillis then unixMillis - c.epoch else 0

/-- The reading of the clock where the source of wall-clock time gives this one. -/
def onWall (c : SystemClock) : Reading → Reading
  | .shows unixMillis => .shows (c.reading unixMillis)
  | .breaksDown => .breaksDown

end SystemClock

/-- A system clock together with the source of wall-clock time that it reads, in Unix milliseconds. -/
structure WallClock (σ : Type) where
  clock : SystemClock
  wall : σ

namespace WallClock

variable {σ : Type} [Clock σ]

def read (c : WallClock σ) : Reading × WallClock σ :=
  let (reading, wall) := Clock.read c.wall
  (c.clock.onWall reading, { c with wall })

instance : Clock (WallClock σ) := ⟨read⟩

theorem read_eq (c : WallClock σ) :
    Clock.read c =
      (c.clock.onWall (Clock.read c.wall).1, { c with wall := (Clock.read c.wall).2 }) :=
  rfl

end WallClock

def Config.systemClock (c : Config) (now : UInt64) : Except Fault SystemClock :=
  let (seconds, nanos) := c.epochTime
  SystemClock.withEpoch seconds.toNat nanos.toNat now

end Tickstamp
