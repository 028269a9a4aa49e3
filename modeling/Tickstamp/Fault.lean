import Tickstamp.Numeral
/-!
# Faults

Every way in which the library refuses an input, kept as a cause. The wording stands in the
`message` functions alone, so a caller that has to tell two causes apart never reads a text.
-/
namespace Tickstamp

inductive Field where
  | timestamp
  | machine
  | sequence
  deriving DecidableEq

def Field.label : Field → String
  | .timestamp => "timestamp"
  | .machine => "machine id"
  | .sequence => "sequence"

inductive Misconfiguration where
  /-- A field has no bits. -/
  | zeroWidth (timestamp machine sequence : Nat)
  /-- The fields and the sign bit need more than 64 bits. -/
  | tooManyBits (used : Nat)
  | zeroEpoch
  /-- The epoch and a timestamp of the layout have no sum in 64 bits. -/
  | epochOverflow (epoch timestamp : UInt64)
  | thresholdTooLarge (threshold max : UInt64)
  /-- An epoch given as seconds and nanoseconds has no count of milliseconds in 64 bits. -/
  | epochTooLong
  | epochInFuture (epoch now : UInt64)
  deriving DecidableEq

def Misconfiguration.message : Misconfiguration → String
  | .zeroWidth timestamp machine sequence =>
    s!"bit widths must be positive (timestamp={timestamp}, machine={machine}, sequence={sequence})"
  | .tooManyBits used => s!"layout uses {used} bits but only 64 are available"
  | .zeroEpoch => "epoch must be positive"
  | .epochOverflow epoch timestamp => s!"epoch {epoch} plus timestamp {timestamp} overflows u64"
  | .thresholdTooLarge threshold max =>
    s!"sequence reset threshold {threshold} exceeds the maximum sequence {max}"
  | .epochTooLong => "epoch does not fit in 64-bit milliseconds"
  | .epochInFuture epoch now => s!"epoch {epoch} lies in the future (now is {now})"

inductive KeyFault where
  | wrongLength (expected got : Nat)
  | badSymbol (byte : UInt8) (index : Nat)
  | tooLarge
  deriving DecidableEq

/-- The wording of a cause; a byte is shown in hexadecimal. -/
def KeyFault.message : KeyFault → String
  | .wrongLength expected got => s!"invalid length: expected {expected}, got {got}"
  | .badSymbol byte index =>
    s!"invalid symbol 0x{Numeral.hexadecimal 2 byte.toNat} at index {index}"
  | .tooLarge => "decoded value does not fit the layout"

inductive Fault where
  | misconfigured (cause : Misconfiguration)
  | workerOutOfRange (worker : Int) (max : UInt64)
  | workerUnbound
  /-- The source of worker ids gave this text instead of an id. -/
  | workerProvider (text : String)
  | clockBehind (drift : UInt64)
  | fieldTooLarge (field : Field) (value max : UInt64)
  | malformedKey (cause : KeyFault)
  | lockPoisoned
  deriving DecidableEq

def Fault.message : Fault → String
  | .misconfigured cause => s!"invalid configuration: {cause.message}"
  | .workerOutOfRange worker max => s!"worker id {worker} is out of range (expected 0..={max})"
  | .workerUnbound => "worker id is not bound yet"
  | .workerProvider text => s!"worker id provider failed: {text}"
  | .clockBehind drift => s!"clock moved backwards by {drift}ms"
  | .fieldTooLarge field value max =>
    s!"{field.label} value {value} exceeds its maximum of {max}"
  | .malformedKey cause => s!"malformed key: {cause.message}"
  | .lockPoisoned => "generator lock poisoned"

/-- A sequence of two calls succeeds exactly if the first does and the second, given its
result, does too. -/
theorem Fault.bind_eq_ok_iff {α β : Type} {x : Except Fault α} {f : α → Except Fault β} {b : β} :
    x >>= f = .ok b ↔ ∃ a, x = .ok a ∧ f a = .ok b := by
  cases x with
  | error fault =>
    constructor
    · intro h; cases h
    · rintro ⟨_, h, _⟩; cases h
  | ok a =>
    constructor
    · intro h
      exact ⟨a, rfl, h⟩
    · rintro ⟨_, ha, h⟩
      cases ha
      exact h

end Tickstamp
