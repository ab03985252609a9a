/-!
# Rational numbers with two infinities

The exact values of the numbers that occur as set elements: every rational number, and an infinity
at either end. Comparison is by exact value, so a whole number and a nearby fraction are never
confused however large they are.
-/
namespace FeatureLattice

/-- A rational number or one of the two infinities. -/
inductive Extended where
  | negInf
  | finite (q : Rat)
  | posInf
  deriving DecidableEq

namespace Extended

def ofInt (n : Int) : Extended := finite n

/-- The order from one infinity to the other. -/
def lt : Extended → Extended → Bool
  | negInf, negInf => false
  | negInf, _ => true
  | finite _, negInf => false
  | finite p, finite q => p < q
  | finite _, posInf => true
  | posInf, _ => false

end Extended

end FeatureLattice
