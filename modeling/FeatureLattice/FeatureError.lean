import FeatureLattice.Context.Reader
import FeatureLattice.Value.Literal

/-!
# Reported errors

The errors that the library reports to its users: text that is no written context, an invalid
configuration of the law checker, and a feature name that is no text. Each has a message, to which
a hint can be attached. An error about a text also shows the line and column of its position.

Positions count characters from 0, lines and columns from 1. The text before a position is all of it
when the position lies beyond the end; a negative position counts from the end. The column is taken
from the position as given, so it may leave the line.
-/
namespace FeatureLattice

namespace Text

/-- The part of a text before a position. -/
def before (text : List Char) (position : Int) : List Char :=
  if position < 0 then text.take (text.length + position).toNat else text.take position.toNat

def lineNumber (text : List Char) (position : Int) : Nat :=
  (before text position).count '\n' + 1

/-- The number of characters before the line that holds a position. -/
def lineStart (text : List Char) (position : Int) : Nat :=
  let s := before text position
  s.length - (s.reverse.takeWhile (· ≠ '\n')).length

def columnNumber (text : List Char) (position : Int) : Int :=
  position - lineStart text position + 1

end Text

/-- An error that is reported to the user. -/
inductive FeatureError where
  | general (message hint : String)
  /-- The text is no written context, for a reason found at the position. -/
  | malformed (message text : String) (position : Int) (hint : String)
  /-- The configuration of the law checker has problems. -/
  | lawCheck (problems : List String) (hint : String)
  /-- The value, whose literal form is given, is used as a feature name. -/
  | featureName (name : Value) (literal hint : String)

namespace FeatureError

def message : FeatureError → String
  | general message _ => message
  | malformed message _ _ _ => message
  | lawCheck problems _ => "invalid law-check configuration: " ++ "; ".intercalate problems
  | featureName name literal _ =>
    "feature names must be str, got " ++ name.typeName ++ ": " ++ literal

def hint : FeatureError → String
  | general _ hint => hint
  | malformed _ _ _ hint => hint
  | lawCheck _ hint => hint
  | featureName _ _ hint => hint

/-- Attach a hint in place of the old one. -/
def withHint (hint : String) : FeatureError → FeatureError
  | general message _ => general message hint
  | malformed message text position _ => malformed message text position hint
  | lawCheck problems _ => lawCheck problems hint
  | featureName name literal _ => featureName name literal hint

/-- Where an error about a text is: its line and column. -/
def place? : FeatureError → Option (Nat × Int)
  | malformed _ text position _ =>
    some (Text.lineNumber text.toList position, Text.columnNumber text.toList position)
  | _ => none

/-- The whole text of an error: place, message and hint. -/
def report (e : FeatureError) : String :=
  let place := match e.place? with
    | some (line, column) => toString line ++ ":" ++ toString column ++ ": "
    | none => ""
  let hint := if e.hint.isEmpty then "" else " (hint: " ++ e.hint ++ ")"
  place ++ e.message ++ hint

end FeatureError

def Hint.text : Hint → String
  | .opening => "a context starts with '*' or '\x7b'"
  | .shape => "expected '*' or '\x7bname, ...\x7d'"

/-- The error that reports the rejection of a text. -/
def Rejection.toError (text : String) (r : Rejection) : FeatureError :=
  .malformed ("malformed feature context " ++ Text.quote text) text r.position r.hint.text

end FeatureLattice
