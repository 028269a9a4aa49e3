import Tickstamp.Fault
import Tickstamp.Json.Tree
/-!
# Reading values from trees

The readers here take a tree apart and refuse everything that does not have the expected form.
A structure is read from an object, in which every member of a known name may occur once and all others
are skipped, or from an array of its fields in order.
-/
namespace Tickstamp.Json

/-- Why a text is not the wanted value. -/
inductive Refusal where
  | malformed
  /-- Three widths were read, but they are no layout. -/
  | layout (fault : Fault)
  deriving DecidableEq

abbrev Result (α : Type) := Except Refusal α

namespace Tree

/-- A natural number below 2^64. -/
def word : Tree → Result UInt64
  | .natural n => if n < UInt64.size then .ok (UInt64.ofNat n) else .error .malformed
  | _ => .error .malformed

/-- A natural number below 256. -/
def width : Tree → Result Nat
  | .natural n => if n < 256 then .ok n else .error .malformed
  | _ => .error .malformed

def flag : Tree → Result Bool
  | .bool b => .ok b
  | _ => .error .malformed

def namesOk (members : List Member) : Bool :=
  members.all (·.1.isSome)

/-- The value of the one member with this name. -/
def field (members : List Member) (name : String) : Result Tree :=
  match members.filter (·.1 == some name) with
  | [(_, tree)] => .ok tree
  | _ => .error .malformed

end Tree

/-- Reads a whole text: one value, and nothing but blanks after it. -/
def readText {α : Type} (read : Tree → Result α) (text : String) : Result α := do
  let (tree, rest) := Tree.read (Token.ofText text)
  let a ← read tree
  if rest.isEmpty then return a else throw .malformed

end Tickstamp.Json
