import FeatureLattice.Context
import FeatureLattice.Lattice.Semilattice

/-!
# Semilattices of contexts

Where paths of a program merge, a feature stays enabled only if it was enabled along all of them,
so the meet of contexts is intersection, and the universal context is the top. The other
operations on contexts here serve to show broken laws.
-/
namespace FeatureLattice.Context

/-- Contexts under intersection, ordered by inclusion. -/
def lattice : MeetSemilattice Context where
  top := universal
  meet := intersection
  eq a b := a == b
  leq := isSubsetOf

/-- The union of a list of contexts, taken from the empty one in order. -/
def joinAll (cs : List Context) : Context := cs.foldl union empty

/-- The intersection, but nothing if both contexts are concrete and strictly nested. -/
def dropNested (c d : Context) : Context :=
  if c.isUniversal || d.isUniversal then c.intersection d
  else if c != d && (c.isSubsetOf d || d.isSubsetOf c) then empty
  else c.intersection d

/-- A decreasing operation that does not keep the order. -/
def dropsNestedLattice : MeetSemilattice Context := { lattice with meet := dropNested }

/-- The lattice of contexts with the wrong end named as top. -/
def bottomTopLattice : MeetSemilattice Context := { lattice with top := empty }

end FeatureLattice.Context
