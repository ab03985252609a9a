import FeatureLattice.Context

/-!
# Lattices by name

The lattices that a user can ask for. Three of them form one family, whose order is the inclusion
of contexts and whose members count as equal; the rest stand each for itself. Most serve to show
what the law checker finds, and break one or more laws.
-/
namespace FeatureLattice

/-- The lattices that a user can ask for. -/
inductive NamedLattice where
  /-- Contexts under intersection, with the universal context on top. -/
  | features
  /-- As `features`, but the meet of two strictly nested concrete contexts is empty. -/
  | dropsNested
  /-- As `features`, but the empty context is named as top. -/
  | bottomTop
  /-- Contexts under intersection, outside the family. -/
  | intersection
  | leftProjection
  | rightProjection
  /-- Contexts under union with the universal context as top. -/
  | union
  /-- Contexts under union with the empty context as top. -/
  | unionNone
  | constant (c : Context)
  /-- Numbers under the smaller of two. -/
  | minimum
  | gcd
  | difference
  | maximum
  | average
  | sum
  /-- The numbers from 0 under an operation given by its table. -/
  | table (rows : List (List Int)) (top : Int)
  deriving DecidableEq

namespace NamedLattice

/-- Whether a lattice belongs to the family ordered by inclusion of contexts. -/
def isFamily : NamedLattice → Bool
  | features | dropsNested | bottomTop => true
  | _ => false

/-- The name of a lattice's type in messages. -/
def typeName : NamedLattice → String
  | features => "FeatureContextLattice"
  | dropsNested => "DropsNestedSets"
  | bottomTop => "BottomTop"
  | intersection => "Intersection"
  | leftProjection => "LeftProjection"
  | rightProjection => "RightProjection"
  | union => "Union"
  | unionNone => "UnionNone"
  | constant _ => "Constant"
  | minimum => "MinLattice"
  | gcd => "Gcd"
  | difference => "Difference"
  | maximum => "Maximum"
  | average => "Average"
  | sum => "Sum"
  | table _ _ => "Table"

/-- The literal form of a lattice: the family has one for all its members. -/
def literal (l : NamedLattice) : String :=
  (if l.isFamily then features.typeName else l.typeName) ++ "()"

end NamedLattice

end FeatureLattice
