import Tickstamp.Fault
import Tickstamp.Stamp
/-!
# Bit layouts

A layout divides the low 63 bits of a word into timestamp, machine and sequence, the timestamp in
the high position, so that stamps sort by time first. Every layout has three fields of at least one
bit and leaves the sign bit alone; `Layout.ofBits` is the only gate. Shifts and masks work on words
of 64 bits.
-/
namespace Tickstamp

structure Layout where
  timestampBits : Nat
  machineBits : Nat
  sequenceBits : Nat
  timestamp_pos : 0 < timestampBits
  machine_pos : 0 < machineBits
  sequence_pos : 0 < sequenceBits
  bits_le : timestampBits + machineBits + sequenceBits ≤ 63
  deriving DecidableEq

structure Fields where
  timestamp : UInt64
  machine : UInt64
  sequence : UInt64
  deriving DecidableEq

/-- The word whose low `bits` bits are set, for fewer than 64 bits. -/
def lowMask (bits : Nat) : UInt64 :=
  (1 <<< UInt64.ofNat bits) - 1

namespace Layout

/-- The layout with these widths; a width of zero is reported before a sum that is too large. -/
def ofBits (timestamp machine sequence : Nat) : Except Fault Layout :=
  if h : 0 < timestamp ∧ 0 < machine ∧ 0 < sequence then
    if fits : timestamp + machine + sequence ≤ 63 then
      .ok ⟨timestamp, machine, sequence, h.1, h.2.1, h.2.2, fits⟩
    else
      .error (.misconfigured (.tooManyBits (timestamp + machine + sequence + 1)))
  else
    .error (.misconfigured (.zeroWidth timestamp machine sequence))

/-- Milliseconds for 69 years, 1024 machines, 4096 stamps a millisecond. -/
def standard : Layout := ⟨41, 10, 12, by decide, by decide, by decide, by decide⟩

instance : Inhabited Layout := ⟨standard⟩

/-- The bits of a valid stamp. -/
def valueBits (l : Layout) : Nat :=
  l.timestampBits + l.machineBits + l.sequenceBits

/-- The bits in use, the sign bit included. -/
def totalBits (l : Layout) : Nat :=
  1 + l.valueBits

def maxTimestamp (l : Layout) : UInt64 := lowMask l.timestampBits

def maxMachine (l : Layout) : UInt64 := lowMask l.machineBits

def maxSequence (l : Layout) : UInt64 := lowMask l.sequenceBits

def machineShift (l : Layout) : Nat := l.sequenceBits

def timestampShift (l : Layout) : Nat := l.sequenceBits + l.machineBits

/-- The fields side by side in one word, whatever their contents. -/
def pack (l : Layout) (f : Fields) : Stamp :=
  ⟨(f.timestamp <<< UInt64.ofNat l.timestampShift) ||| (f.machine <<< UInt64.ofNat l.machineShift)
    ||| f.sequence⟩

def check (field : Field) (value max : UInt64) : Except Fault Unit :=
  if value ≤ max then .ok () else .error (.fieldTooLarge field value max)

/-- The stamp with these fields; the first field that does not fit is reported. -/
def encode (l : Layout) (f : Fields) : Except Fault Stamp := do
  check .timestamp f.timestamp l.maxTimestamp
  check .machine f.machine l.maxMachine
  check .sequence f.sequence l.maxSequence
  return l.pack f

/-- The fields of a word; bits above the layout are ignored. -/
def decode (l : Layout) (s : Stamp) : Fields where
  timestamp := (s.word >>> UInt64.ofNat l.timestampShift) &&& l.maxTimestamp
  machine := (s.word >>> UInt64.ofNat l.machineShift) &&& l.maxMachine
  sequence := s.word &&& l.maxSequence

def isValid (l : Layout) (s : Stamp) : Bool :=
  s.word >>> UInt64.ofNat l.valueBits == 0

/-- Refuses a word with bits above the layout, which look like a timestamp that is too large. -/
def validate (l : Layout) (s : Stamp) : Except Fault Stamp :=
  if l.isValid s then .ok s
  else .error
    (.fieldTooLarge .timestamp (s.word >>> UInt64.ofNat l.timestampShift) l.maxTimestamp)

def machineOf (l : Layout) (worker : Int) : Except Fault UInt64 :=
  if 0 ≤ worker ∧ worker ≤ (l.maxMachine.toNat : Int) then .ok (UInt64.ofNat worker.toNat)
  else .error (.workerOutOfRange worker l.maxMachine)

end Layout
end Tickstamp
