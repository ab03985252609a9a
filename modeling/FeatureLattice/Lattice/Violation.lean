import FeatureLattice.Lattice.Laws
import FeatureLattice.Value.Literal

/-!
# Reports of broken laws

A violation names a law, the operands that break it and what went wrong. It has a line of text for
users, and a literal form with all its parts.
-/
namespace FeatureLattice

/-- The report of one broken law. -/
structure Violation (α : Type) where
  law : String
  operands : List α := []
  detail : String := ""

/-- The report of a failure. -/
def LawFailure.violation {α : Type} (display : α → String) (f : LawFailure α) : Violation α :=
  ⟨f.law.name, f.operands, f.detail display⟩

/-- The line of text that shows a violation. -/
def Violation.line {α : Type} (display : α → String) (v : Violation α) : String :=
  v.law ++ "(" ++ listed (v.operands.map display) ++ "): " ++ v.detail

/-- The literal form of a violation. -/
def Violation.literal (nb : Notebook) (v : Violation Value) : String :=
  "LawViolation(law=" ++ Text.quote v.law ++ ", operands=" ++
    (Value.sequence .tuple v.operands).literal nb ++ ", detail=" ++ Text.quote v.detail ++ ")"

/-- The literal form of a configuration of the law checker. -/
def LawCheckConfig.literal (config : LawCheckConfig) : String :=
  "LawCheckConfig(max_samples=" ++ toString config.maxSamples ++ ", check_associativity=" ++
    (Number.bool config.checkAssociativity).text ++ ", check_monotonicity=" ++
    (Number.bool config.checkMonotonicity).text ++ ")"

end FeatureLattice
