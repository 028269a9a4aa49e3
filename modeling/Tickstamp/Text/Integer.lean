/-!
# Integers in texts

An integer is a sign, which may be left out, and at least one ASCII digit; leading zeros are fine,
blanks are not. Digits are read from the left until one is foreign or the number leaves its range,
whichever comes first, and that is what a fault says.
-/
namespace Tickstamp.Text

inductive IntegerFault where
  | empty
  | foreignDigit
  | tooLarge
  deriving DecidableEq

def IntegerFault.message : IntegerFault → String
  | .empty => "cannot parse integer from empty string"
  | .foreignDigit => "invalid digit found in string"
  | .tooLarge => "number too large to fit in target type"

/-- The number that digits write after `acc`, if it never reaches `limit`. -/
def readDigits (limit acc : Nat) : List Char → Except IntegerFault Nat
  | [] => .ok acc
  | c :: rest =>
    if c.isDigit then
      let n := acc * 10 + (c.toNat - 48)
      if n < limit then readDigits limit n rest else .error .tooLarge
    else .error .foreignDigit

def readMagnitude (limit : Nat) (digits : List Char) : Except IntegerFault Nat :=
  if digits.isEmpty then .error .foreignDigit else readDigits limit 0 digits

/-- A natural number below `limit`; the only sign it may have is a plus. -/
def readNatural (limit : Nat) (text : String) : Except IntegerFault Nat :=
  match text.toList with
  | [] => .error .empty
  | '+' :: digits => readMagnitude limit digits
  | digits => readMagnitude limit digits

def readSigned (text : String) : Except IntegerFault Int :=
  match text.toList with
  | [] => .error .empty
  | '-' :: digits => (readMagnitude (1 <<< 63 + 1) digits).map fun n => -(n : Int)
  | '+' :: digits => (readMagnitude (1 <<< 63) digits).map Int.ofNat
  | digits => (readMagnitude (1 <<< 63) digits).map Int.ofNat

end Tickstamp.Text
