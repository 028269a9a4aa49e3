import Tickstamp.Layout
/-!
# Keys

A key is what a user of stamps sees: the number itself, or a base-62 numeral whose width depends
only on the layout. Text keys of one layout sort like their stamps. Reading a text key names the
first thing that is wrong: its length, then its first foreign byte, then its size.
-/
namespace Tickstamp

/-- A stamp as handed out: as a number or as a text. -/
inductive Key where
  | numeric (stamp : Stamp)
  | text (key : String)
  deriving DecidableEq

namespace Key

def display : Key → String
  | .numeric stamp => stamp.text
  | .text key => key

def bytes (text : String) : List UInt8 :=
  text.toByteArray.data.toList

/-- Numbers come before texts; texts are compared byte by byte. -/
def le : Key → Key → Bool
  | .numeric a, .numeric b => decide (a ≤ b)
  | .numeric _, .text _ => true
  | .text _, .numeric _ => false
  | .text a, .text b => decide (bytes a ≤ bytes b)

def sort (keys : List Key) : List Key :=
  keys.mergeSort le

/-- The number that the bytes write to the base 62, read from byte `index` on with `acc` before it;
a foreign byte is refused, and so is a number of more than 64 bits. -/
def readDigits (index acc : Nat) : List UInt8 → Except KeyFault Nat
  | [] => .ok acc
  | byte :: rest =>
    match Numeral.digitOfByte? byte with
    | none => .error (.badSymbol byte index)
    | some digit =>
      if acc * 62 + digit < UInt64.size then readDigits (index + 1) (acc * 62 + digit) rest
      else .error .tooLarge

def readNumeral (width : Nat) (text : List UInt8) : Except KeyFault Nat :=
  if text.length = width then readDigits 0 0 text
  else .error (.wrongLength width text.length)

end Key

namespace Layout

def keyWidth (l : Layout) : Nat :=
  Numeral.widthForBits l.totalBits

def encodeKey (l : Layout) (s : Stamp) : Except Fault String := do
  let s ← l.validate s
  return Numeral.radix62 l.keyWidth s.word.toNat

def decodeKey (l : Layout) (key : String) : Except Fault Stamp :=
  match Key.readNumeral l.keyWidth (Key.bytes key) with
  | .error cause => .error (.malformedKey cause)
  | .ok n =>
    let s : Stamp := ⟨UInt64.ofNat n⟩
    if l.isValid s then .ok s else .error (.malformedKey .tooLarge)

end Layout
end Tickstamp
