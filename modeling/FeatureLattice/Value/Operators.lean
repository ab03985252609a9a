import FeatureLattice.ValueSet

/-!
# Operators on values

Contexts combine with contexts and sets of values with sets of values; only contexts are ordered.
Any other pair of operands is a fault that names the types of both.
-/
namespace FeatureLattice.Value

/-- The intersection of two contexts or of two sets. -/
def intersection? : Value → Value → Option Value
  | context c, context d => some (context (c.intersection d))
  | v, w => do return ((← v.asValueSet?).intersection (← w.asValueSet?)).toValue

/-- The union of two contexts or of two sets. -/
def union? : Value → Value → Option Value
  | context c, context d => some (context (c.union d))
  | v, w => do return ((← v.asValueSet?).union (← w.asValueSet?)).toValue

/-- Whether one of two contexts or sets is part of the other. -/
def isSubsetOf? : Value → Value → Option Bool
  | context c, context d => some (c.isSubsetOf d)
  | v, w => do return (← v.asValueSet?).isSubsetOf (← w.asValueSet?)

/-- The result of `&` or `|`. -/
def combine (operator : BinaryOperator) (result? : Value → Value → Option Value)
    (v w : Value) : Except Fault Value :=
  match result? v w with
  | some result => .ok result
  | none => .error (.unsupported operator v.typeName w.typeName)

def and (v w : Value) : Except Fault Value := combine .and intersection? v w

def or (v w : Value) : Except Fault Value := combine .or union? v w

/-- Whether the left context is part of the right one. -/
def le : Value → Value → Except Fault Bool
  | context c, context d => .ok (c.isSubsetOf d)
  | v, w => .error (.unordered .le v.typeName w.typeName)

/-- Whether the right context is part of the left one. -/
def ge : Value → Value → Except Fault Bool
  | context c, context d => .ok (d.isSubsetOf c)
  | v, w => .error (.unordered .ge v.typeName w.typeName)

end FeatureLattice.Value
