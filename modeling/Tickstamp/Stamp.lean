import Tickstamp.Numeral
/-!
# Stamps

A stamp is a word of 64 bits. Which bits hold what is the business of a layout; here are only the
forms in which a stamp is shown, and the order, which is that of the words.
-/
namespace Tickstamp

structure Stamp where
  word : UInt64
  deriving DecidableEq, Inhabited

namespace Stamp

instance : LT Stamp := ⟨fun a b => a.word < b.word⟩

instance : LE Stamp := ⟨fun a b => a.word ≤ b.word⟩

instance (a b : Stamp) : Decidable (a < b) := inferInstanceAs (Decidable (a.word < b.word))

instance (a b : Stamp) : Decidable (a ≤ b) := inferInstanceAs (Decidable (a.word ≤ b.word))

def text (s : Stamp) : String :=
  toString s.word

/-- The decimal form with as many digits as the largest word needs, so that texts sort like stamps. -/
def padded (s : Stamp) : String :=
  Numeral.decimal 20 s.word.toNat

def debugText (s : Stamp) : String :=
  s!"SnowflakeId(0x{Numeral.hexadecimal 16 s.word.toNat})"

/-- The word read as a two's complement number. -/
def signed (s : Stamp) : Int :=
  s.word.toInt64.toInt

end Stamp
end Tickstamp
