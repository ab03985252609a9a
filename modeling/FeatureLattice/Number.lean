import FeatureLattice.Number.Binary64

/-!
# Numbers of three kinds

Truth values, whole numbers and floating-point numbers count as numbers. Each has an exact value,
and numbers are equal when their values are, whatever their kinds: the truth value `True`, the
whole number 1 and the floating-point number 1.0 are one number with three texts.
-/
namespace FeatureLattice

/-- A floating-point number, known by its decimal text, with the exact value the text names. -/
structure Floating where
  text : String
  value : Extended
  reads : Binary64.read? text = some value
  deriving DecidableEq

/-- The floating-point number of a decimal text, if it is one. -/
def Floating.ofText? (text : String) : Option Floating :=
  match h : Binary64.read? text with
  | some value => some ⟨text, value, h⟩
  | none => none

/-- The positive infinity. -/
def Floating.infinity : Floating := ⟨"inf", .posInf, by rfl⟩

/-- A truth value, a whole number or a floating-point number. -/
inductive Number where
  | bool (b : Bool)
  | int (n : Int)
  | float (x : Floating)

namespace Number

def value : Number → Extended
  | bool b => .ofInt (if b then 1 else 0)
  | int n => .ofInt n
  | float x => x.value

/-- Numbers are equal when their values are, across kinds. -/
instance : BEq Number := ⟨fun a b => a.value = b.value⟩

theorem beq_iff {a b : Number} : (a == b) = true ↔ a.value = b.value := decide_eq_true_iff

def lt (a b : Number) : Bool := a.value.lt b.value

/-- The smaller of two numbers, the first of two equal ones. -/
def min (a b : Number) : Number := if b.lt a then b else a

def text : Number → String
  | bool true => "True"
  | bool false => "False"
  | int n => toString n
  | float x => x.text

end Number

end FeatureLattice
