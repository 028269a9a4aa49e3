import Tickstamp.Numeral
import Tickstamp.Numeral.Double
/-!
# Numbers in JSON

A JSON number is an optional minus, a whole part without superfluous zeros, an optional fraction and
an optional exponent. Only plain natural numbers have a meaning here; of all others it matters
merely whether they are well formed, and where a value is kept, whether a double can hold them.
-/
namespace Tickstamp.Json

structure NumberParts where
  negative : Bool
  whole : List Char
  fraction : List Char
  /-- Nothing if there is no exponent. -/
  exponent : Option Int

namespace NumberParts

def valueOf (ds : List Char) : Nat :=
  Numeral.value 10 (ds.map fun c => c.toNat - 48)

/-- A fraction is a point and at least one digit, or nothing at all. -/
def readFraction (cs : List Char) : Option (List Char × List Char) :=
  match cs with
  | '.' :: rest =>
    let ds := rest.takeWhile Char.isDigit
    if ds.isEmpty then none else some (ds, rest.dropWhile Char.isDigit)
  | rest => some ([], rest)

def readExponentDigits (sign : Int) (cs : List Char) : Option (Option Int) :=
  if cs.isEmpty || !cs.all Char.isDigit then none else some (some (sign * valueOf cs))

/-- An exponent is a letter, an optional sign and at least one digit, or nothing at all. -/
def readExponent (cs : List Char) : Option (Option Int) :=
  match cs with
  | [] => some none
  | e :: rest =>
    if e = 'e' ∨ e = 'E' then
      match rest with
      | '+' :: ds => readExponentDigits 1 ds
      | '-' :: ds => readExponentDigits (-1) ds
      | ds => readExponentDigits 1 ds
    else none

def readUnsigned (negative : Bool) (cs : List Char) : Option NumberParts := do
  let whole := cs.takeWhile Char.isDigit
  guard (!whole.isEmpty && (whole.length == 1 || whole.head? != some '0'))
  let (fraction, rest) ← readFraction (cs.dropWhile Char.isDigit)
  let exponent ← readExponent rest
  return { negative, whole, fraction, exponent }

def read (cs : List Char) : Option NumberParts :=
  match cs with
  | '-' :: rest => readUnsigned true rest
  | rest => readUnsigned false rest

/-- The value of a number that is written with digits only. -/
def natural? (p : NumberParts) : Option Nat :=
  if !p.negative && p.fraction.isEmpty && p.exponent.isNone then some (valueOf p.whole) else none

def ofNatural (n : Nat) : NumberParts :=
  { negative := false, whole := Nat.toDigits 10 n, fraction := [], exponent := none }

/-- Appends digits to a significand as long as it fits 64 bits, and keeps the digits from the first
one on for which there is no room. -/
def appendDigits (significand : Nat) : List Char → Nat × List Char
  | [] => (significand, [])
  | d :: rest =>
    let longer := significand * 10 + (d.toNat - 48)
    if longer < UInt64.size then appendDigits longer rest else (significand, d :: rest)

/-- A significand of 64 bits and a power of ten. Digits without room are dropped: those of the whole
part raise the power, those of the fraction leave it as it is. -/
def scaled (p : NumberParts) : Nat × Int :=
  let (head, wholeRest) := appendDigits 0 p.whole
  let (significand, fractionRest) := appendDigits head p.fraction
  let places := (p.fraction.length : Int) - fractionRest.length
  (significand, wholeRest.length - places + p.exponent.getD 0)

/-- The largest power of ten that is finite as a double. -/
def largestPower : Nat := 308

/-- A double can hold the number. It is computed as the significand times the power of ten, each
rounded before the product is; a negative power divides and cannot overflow. -/
def isFinite (p : NumberParts) : Bool :=
  let (significand, power) := p.scaled
  if significand = 0 ∨ power < 0 then true
  else if largestPower < power then false
  else Double.productIsFinite significand (Nat.pow 10 power.toNat)

end NumberParts
end Tickstamp.Json
