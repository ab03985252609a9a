import FeatureLattice.Text.CharacterClass

/-!
# Whole numbers as users write them

White space around a number is ignored. A sign may stand before the digits, the digits may be of any
script, and a single underscore may separate two digits. At most 4300 digits are read.
-/
namespace FeatureLattice.Text

/-- Read digits after a first digit: `value` and `count` are those of the digits so far. -/
def wholeNumberTail (value count : Nat) : List Char → Option (Nat × Nat)
  | [] => some (value, count)
  | '_' :: c :: cs =>
    match decimalDigit? c with
    | some d => wholeNumberTail (10 * value + d) (count + 1) cs
    | none => none
  | c :: cs =>
    match decimalDigit? c with
    | some d => wholeNumberTail (10 * value + d) (count + 1) cs
    | none => none

/-- Read an unsigned number. -/
def unsigned? : List Char → Option Nat
  | [] => none
  | c :: cs => do
    let d ← decimalDigit? c
    let (value, count) ← wholeNumberTail d 1 cs
    if count ≤ 4300 then some value else none

/-- Read a whole number. -/
def wholeNumber? (s : String) : Option Int :=
  match trimWhiteSpace s.toList with
  | '-' :: cs => (unsigned? cs).map fun n => -(n : Int)
  | '+' :: cs => (unsigned? cs).map Int.ofNat
  | cs => (unsigned? cs).map Int.ofNat

end FeatureLattice.Text
