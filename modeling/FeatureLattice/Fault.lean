import FeatureLattice.FeatureError

/-!
# Faults

Why an operation has no result: an error reported to the user, or a misuse of the operation.
-/
namespace FeatureLattice

/-- A binary operator between values. -/
inductive BinaryOperator where
  | and
  | or
  | le
  | ge
  deriving DecidableEq

def BinaryOperator.symbol : BinaryOperator → String
  | and => "&"
  | or => "|"
  | le => "<="
  | ge => ">="

/-- Why an operation has no result. -/
inductive Fault where
  | reported (e : FeatureError)
  /-- A value of this type cannot be an element of a set. -/
  | unhashable (typeName : String)
  | notIterable (typeName : String)
  /-- No names are given for a concrete context. -/
  | namesMissing
  /-- Names are given for the universal context. -/
  | universalWithNames
  /-- The value with this literal form names no kind of context. -/
  | unknownKind (literal : String)
  | frozenAssign (field : String)
  | frozenDelete (field : String)
  /-- The operator does not combine values of these types. -/
  | unsupported (operator : BinaryOperator) (left right : String)
  /-- The operator does not compare values of these types. -/
  | unordered (operator : BinaryOperator) (left right : String)
  | unknownNode (node : String)
  | missingModule (name : String)
  | missingExport (module name : String)

def Fault.message : Fault → String
  | reported e => e.report
  | unhashable typeName => "unhashable type: '" ++ typeName ++ "'"
  | notIterable typeName => "'" ++ typeName ++ "' object is not iterable"
  | namesMissing =>
    "a concrete context needs a feature set; use FeatureContext.from_optional(None) " ++
      "for the universal context"
  | universalWithNames => "a universal context carries no feature set"
  | unknownKind literal => literal ++ " is not a valid ContextKind"
  | frozenAssign field => "cannot assign to field " ++ Text.quote field
  | frozenDelete field => "cannot delete field " ++ Text.quote field
  | unsupported operator left right =>
    "unsupported operand type(s) for " ++ operator.symbol ++ ": '" ++ left ++ "' and '" ++
      right ++ "'"
  | unordered operator left right =>
    "'" ++ operator.symbol ++ "' not supported between instances of '" ++ left ++ "' and '" ++
      right ++ "'"
  | unknownNode node => Text.quote node
  | missingModule name =>
    "featureflow: required submodule '" ++ name ++ "' failed to import: No module named " ++
      "'featureflow." ++ name ++ "'"
  | missingExport module name =>
    "featureflow." ++ module ++ " does not export '" ++ name ++ "'"

end FeatureLattice
