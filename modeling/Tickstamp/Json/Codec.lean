import Tickstamp.Config
import Tickstamp.Json.Decoding
/-!
# Settings, stamps and keys in JSON

Each type has a function to a tree and one from a tree. Writing uses one form: objects with all
fields in order, a lag policy named in its member `policy`, a carry-over as a name or an object with a
threshold. Reading accepts more: arrays for objects, fields of a configuration left out, members of
other names. A layout is checked as soon as its text is complete, before anything after it is read.
-/
namespace Tickstamp

open Json (Tree Member Result Refusal)

namespace Layout

def toTree (l : Layout) : Tree :=
  .object [(some "timestamp_bits", .natural l.timestampBits),
    (some "machine_bits", .natural l.machineBits),
    (some "sequence_bits", .natural l.sequenceBits)] true

def ofTrees (timestamp machine sequence : Tree) : Result Layout := do
  let t ← timestamp.width
  let m ← machine.width
  let s ← sequence.width
  (ofBits t m s).mapError .layout

def ofTree : Tree → Result Layout
  | .array [timestamp, machine, sequence] true => ofTrees timestamp machine sequence
  | .object members true => do
    unless Tree.namesOk members do throw .malformed
    ofTrees (← Tree.field members "timestamp_bits") (← Tree.field members "machine_bits")
      (← Tree.field members "sequence_bits")
  | _ => .error .malformed

end Layout

namespace LagPolicy

def toTree : LagPolicy → Tree
  | .wait maxDrift =>
    .object [(some "policy", .text (some "wait")),
      (some "max_drift_millis", .natural maxDrift.toNat)] true
  | .fail => .object [(some "policy", .text (some "fail"))] true

/-- Reads a policy where containers may be nested less than `room` deep. The name of the policy may
stand anywhere, so the other members are kept until it is known; `fail` has no use for them. -/
def ofTree (room : Nat) : Tree → Result LagPolicy
  | .array [.text (some "wait"), drift] true => return .wait (← drift.word)
  | .array [.text (some "fail")] true => return .fail
  | .object members true => do
    unless 1 < room && Tree.membersKept (room - 1) members do throw .malformed
    match ← Tree.field members "policy" with
    | .text (some "wait") => return .wait (← (← Tree.field members "max_drift_millis").word)
    | .text (some "fail") => return .fail
    | _ => throw .malformed
  | _ => .error .malformed

end LagPolicy

namespace CarryOver

def toTree : CarryOver → Tree
  | .never => .text (some "every_tick")
  | .half => .text (some "half_range")
  | .upTo limit => .object [(some "threshold", .natural limit.toNat)] true

def ofTree : Tree → Result CarryOver
  | .text (some "every_tick") | .object [(some "every_tick", .null)] true => .ok .never
  | .text (some "half_range") | .object [(some "half_range", .null)] true => .ok .half
  | .object [(some "threshold", limit)] true => return .upTo (← limit.word)
  | _ => .error .malformed

end CarryOver

inductive ConfigField where
  | epoch
  | layout
  | asString
  | lag
  | carryOver
  deriving DecidableEq

namespace ConfigField

def all : List ConfigField := [.epoch, .layout, .asString, .lag, .carryOver]

def name : ConfigField → String
  | .epoch => "epoch_millis"
  | .layout => "layout"
  | .asString => "as_string"
  | .lag => "rollback"
  | .carryOver => "sequence_reset"

def named? (name : String) : Option ConfigField :=
  all.find? (·.name == name)

/-- Containers may be nested less than this deep around a value that is kept. -/
def depthLimit : Nat := 128

def put (f : ConfigField) (tree : Tree) (c : Config) : Result Config :=
  match f with
  | .epoch => tree.word.map fun epoch => { c with epoch }
  | .layout => (Layout.ofTree tree).map fun layout => { c with layout }
  | .asString => tree.flag.map fun asString => { c with asString }
  | .lag => (LagPolicy.ofTree (depthLimit - 1) tree).map fun lag => { c with lag }
  | .carryOver => (CarryOver.ofTree tree).map fun carryOver => { c with carryOver }

def toTree (f : ConfigField) (c : Config) : Tree :=
  match f with
  | .epoch => .natural c.epoch.toNat
  | .layout => c.layout.toTree
  | .asString => .bool c.asString
  | .lag => c.lag.toTree
  | .carryOver => c.carryOver.toTree

end ConfigField

namespace Config

def toTree (c : Config) : Tree :=
  .object (ConfigField.all.map fun f => (some f.name, f.toTree c)) true

/-- Replaces the fields that the members name, each at most once. -/
def putMembers (seen : List ConfigField) (c : Config) : List Member → Result Config
  | [] => .ok c
  | (none, _) :: _ => .error .malformed
  | (some name, tree) :: rest =>
    match ConfigField.named? name with
    | none => putMembers seen c rest
    | some f =>
      if f ∈ seen then .error .malformed
      else
        match f.put tree c with
        | .error refusal => .error refusal
        | .ok c => putMembers (f :: seen) c rest

/-- Replaces the fields in order, as far as there are elements. -/
def putItems (c : Config) : List ConfigField → List Tree → Result Config
  | _, [] => .ok c
  | [], _ :: _ => .error .malformed
  | f :: fields, tree :: rest =>
    match f.put tree c with
    | .error refusal => .error refusal
    | .ok c => putItems c fields rest

def ofTree : Tree → Result Config
  | .array items closed => do
    let c ← putItems {} ConfigField.all items
    if closed then return c else throw .malformed
  | .object members closed => do
    let c ← putMembers [] {} members
    if closed then return c else throw .malformed
  | _ => .error .malformed

end Config

namespace Stamp

def toTree (s : Stamp) : Tree := .natural s.word.toNat

def ofTree (tree : Tree) : Result Stamp := tree.word.map Stamp.mk

end Stamp

namespace Key

def toTree : Key → Tree
  | .numeric stamp => stamp.toTree
  | .text key => .text (some key)

/-- A string is always a text, even if it consists of digits. -/
def ofTree : Tree → Result Key
  | .text (some key) => .ok (.text key)
  | tree => (Stamp.ofTree tree).map .numeric

end Key

namespace Origin

def toTree (o : Origin) : Tree :=
  .object [(some "unix_millis", .natural o.unixMillis.toNat),
    (some "machine_id", .natural o.machine.toNat),
    (some "sequence", .natural o.sequence.toNat)] true

def ofTrees (unixMillis machine sequence : Tree) : Result Origin :=
  return ⟨← unixMillis.word, ← machine.word, ← sequence.word⟩

def ofTree : Tree → Result Origin
  | .array [unixMillis, machine, sequence] true => ofTrees unixMillis machine sequence
  | .object members true => do
    unless Tree.namesOk members do throw .malformed
    ofTrees (← Tree.field members "unix_millis") (← Tree.field members "machine_id")
      (← Tree.field members "sequence")
  | _ => .error .malformed

end Origin
end Tickstamp
