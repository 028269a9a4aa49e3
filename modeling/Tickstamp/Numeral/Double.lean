/-!
# Natural numbers as doubles

A double holds 53 significant bits, and a number at or above `Double.limit` rounds to infinity. A
product of doubles is computed exactly and then rounded once, so whether it stays finite is a
comparison of natural numbers.
-/
namespace Tickstamp.Double

/-- The distance of neighbouring doubles around a natural number, at least one. -/
def spacing (n : Nat) : Nat := 1 <<< (n.log2 - 52)

/-- The nearest double; of two that are equally near, the one with an even significand. -/
def nearest (n : Nat) : Nat :=
  let low := n / spacing n
  let rest := 2 * (n % spacing n)
  if rest < spacing n ∨ (rest = spacing n ∧ low % 2 = 0) then low * spacing n
  else (low + 1) * spacing n

/-- Numbers of at most 53 bits are doubles. -/
theorem nearest_of_lt {n : Nat} (small : n < 1 <<< 53) : nearest n = n := by
  have bits : n.log2 < 53 := by
    by_cases zero : n = 0
    · simp [zero]
    · exact (Nat.log2_lt zero).mpr small
  have one : spacing n = 1 := by simp [spacing, show n.log2 - 52 = 0 by omega]
  simp [nearest, one, Nat.mod_one]

/-- The least natural number that rounds to infinity. -/
def limit : Nat := 1 <<< 1024 - 1 <<< 970

def productIsFinite (a b : Nat) : Bool := nearest a * nearest b < limit

end Tickstamp.Double
