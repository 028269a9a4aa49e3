import Tickstamp.Policy
/-!
# Progress of a generator

All that a generator remembers is the timestamp and the sequence of its last stamp, if there was
one. `Progress.advance` says what one reading of the clock allows. The same memory also fits one
word, in which a later progress is a larger number.
-/
namespace Tickstamp

inductive Progress where
  | fresh
  | issued (timestamp sequence : UInt64)
  deriving DecidableEq, Inhabited

inductive Advance where
  | issue (timestamp sequence : UInt64)
  /-- Every sequence of the tick has been used. -/
  | exhausted
  | behind (drift : UInt64)
  deriving DecidableEq

namespace Progress

/-- The same tick with no sequence left. -/
def saturate (p : Progress) (maxSequence : UInt64) : Progress :=
  match p with
  | .fresh => .fresh
  | .issued timestamp _ => .issued timestamp maxSequence

def advance (p : Progress) (now maxSequence : UInt64) (carryOver : CarryOver) : Advance :=
  match p with
  | .fresh => .issue now 0
  | .issued timestamp sequence =>
    if now < timestamp then .behind (timestamp - now)
    else if timestamp < now then .issue now (carryOver.start sequence maxSequence)
    else if sequence < maxSequence then .issue now (sequence + 1)
    else .exhausted

/-- The top bit of a word, set as soon as something has been issued. -/
def startedFlag : UInt64 := 0x8000000000000000

/-- Progress as one word: the flag, the timestamp, and the sequence in the low bits. -/
def pack (p : Progress) (sequenceBits : Nat) : UInt64 :=
  match p with
  | .fresh => 0
  | .issued timestamp sequence =>
    startedFlag ||| (timestamp <<< UInt64.ofNat sequenceBits) ||| sequence

def unpack (word : UInt64) (sequenceBits : Nat) : Progress :=
  if word >>> 63 = 1 then
    let body := word &&& ~~~startedFlag
    .issued (body >>> UInt64.ofNat sequenceBits) (body &&& lowMask sequenceBits)
  else .fresh

end Progress
end Tickstamp
