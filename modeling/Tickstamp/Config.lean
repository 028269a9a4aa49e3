import Tickstamp.Key
import Tickstamp.Policy
/-!
# Configuration

A configuration says where time starts, how stamps are laid out and handed out, and which policies
hold. `Config.validate` accepts exactly those under which every stamp of the layout has a moment in
Unix time, so that nothing is issued that could not be read back.
-/
namespace Tickstamp

structure Config where
  /-- Where timestamps start, in Unix milliseconds. -/
  epoch : UInt64 := 1477958400000
  layout : Layout := .standard
  /-- Keys are handed out as texts. -/
  asString : Bool := false
  lag : LagPolicy := default
  carryOver : CarryOver := default
  deriving DecidableEq

structure Origin where
  unixMillis : UInt64
  machine : UInt64
  sequence : UInt64
  deriving DecidableEq

/-- Milliseconds as seconds and nanoseconds. -/
def splitMillis (millis : UInt64) : UInt64 × UInt64 :=
  (millis / 1000, millis % 1000 * 1000000)

namespace Origin

def text (o : Origin) : String :=
  s!"{o.unixMillis} {o.machine} {o.sequence}"

theorem text_eq (o : Origin) :
    o.text = " ".intercalate [toString o.unixMillis, toString o.machine, toString o.sequence] := by
  have blank : toString " " = " " := rfl
  simp [text, blank, String.append_assoc]

def unixTime (o : Origin) : UInt64 × UInt64 :=
  splitMillis o.unixMillis

end Origin

namespace Config

instance : Inhabited Config := ⟨{}⟩

/-- The moment of a timestamp in Unix milliseconds. -/
def moment (c : Config) (timestamp : UInt64) : Except Fault UInt64 :=
  if c.epoch.toNat + timestamp.toNat < UInt64.size then .ok (c.epoch + timestamp)
  else .error (.misconfigured (.epochOverflow c.epoch timestamp))

/-- Refuses settings under which some stamp could not be issued or read. -/
def validate (c : Config) : Except Fault Unit := do
  if c.epoch = 0 then throw (.misconfigured .zeroEpoch)
  let _ ← c.moment c.layout.maxTimestamp
  c.carryOver.validate c.layout

def epochTime (c : Config) : UInt64 × UInt64 :=
  splitMillis c.epoch

/-- Where a stamp comes from. The settings need not have been validated. -/
def originOf (c : Config) (s : Stamp) : Except Fault Origin := do
  let fields := c.layout.decode (← c.layout.validate s)
  return ⟨← c.moment fields.timestamp, fields.machine, fields.sequence⟩

end Config
end Tickstamp
