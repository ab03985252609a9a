import FeatureLattice.Number.Extended

/-!
# Decimal text of binary floating-point numbers

A floating-point number is given by its decimal text. The text names the number with 53 significant
bits that is nearest to the written decimal, the even neighbour at a tie. Values are computed with
whole numbers only, so they are exact.
-/
namespace FeatureLattice.Binary64

/-- Round a quotient to the nearest whole number, a half to the even neighbour. -/
def roundHalfEven (num den : Nat) : Nat :=
  let q := num / den
  let r := num % den
  if 2 * r < den then q else if den < 2 * r then q + 1 else q + q % 2

/-- A power of two. -/
def powerOfTwo (e : Nat) : Nat := Nat.pow 2 e

/-- The quotient of two whole numbers in units of the given power of two. -/
def scaled (num den : Nat) (e : Int) : Nat × Nat :=
  if e < 0 then (num * powerOfTwo (-e).toNat, den) else (num, den * powerOfTwo e.toNat)

/-- The exponent of the last of 53 significant bits of `num / den`, which is never below -1074. -/
def lastPlace (num den : Nat) : Int :=
  let guess : Int := (num.log2 : Int) - den.log2 - 52
  let (n, d) := scaled num den guess
  let e := if n < powerOfTwo 52 * d then guess - 1 else guess
  if e < -1074 then -1074 else e

/-- The binary number nearest to `num / den`, infinite from the 1024th power of two on. -/
def nearest (negative : Bool) (num den : Nat) : Extended :=
  let e := lastPlace num den
  let (n, d) := scaled num den e
  let m := roundHalfEven n d
  let (n, d) := scaled m 1 (-e)
  if powerOfTwo 1024 * d ≤ n then (if negative then .negInf else .posInf)
  else .finite (mkRat (if negative then -(n : Int) else n) d)

def digit? (c : Char) : Option Nat :=
  if '0' ≤ c ∧ c ≤ '9' then some (c.toNat - '0'.toNat) else none

/-- Read as many decimal digits as there are: their value after `n`, their number, and the rest. -/
def digits (n count : Nat) : List Char → Nat × Nat × List Char
  | [] => (n, count, [])
  | c :: cs =>
    match digit? c with
    | some d => digits (10 * n + d) (count + 1) cs
    | none => (n, count, c :: cs)

/-- Read an exponent mark with its signed digits; no text at all is the exponent 0. -/
def exponent? : List Char → Option Int
  | [] => some 0
  | 'e' :: cs =>
    let (negative, cs) := match cs with
      | '-' :: r => (true, r)
      | '+' :: r => (false, r)
      | r => (false, r)
    match digits 0 0 cs with
    | (n, _ + 1, []) => some (if negative then -n else n)
    | _ => none
  | _ => none

/-- The digits after a decimal point, appended to the whole part `n`, and how many they are. -/
def fraction (n : Nat) : List Char → Nat × Nat × List Char
  | '.' :: cs => digits n 0 cs
  | cs => (n, 0, cs)

/-- The binary number nearest to `n * 10 ^ e`. -/
def ofScientific (negative : Bool) (n : Nat) (e : Int) : Extended :=
  if e < 0 then nearest negative n (Nat.pow 10 (-e).toNat)
  else nearest negative (n * Nat.pow 10 e.toNat) 1

/-- Read an unsigned decimal, with or without a fraction and an exponent. -/
def magnitude? (negative : Bool) (cs : List Char) : Option Extended :=
  if cs = ['i', 'n', 'f'] then some (if negative then .negInf else .posInf)
  else
    match digits 0 0 cs with
    | (_, 0, _) => none
    | (whole, _ + 1, rest) =>
      let (n, places, rest) := fraction whole rest
      (exponent? rest).map fun e => ofScientific negative n (e - places)

/-- The value that a decimal text names, if it is one. -/
def read? (text : String) : Option Extended :=
  match text.toList with
  | '-' :: cs => magnitude? true cs
  | cs => magnitude? false cs

end FeatureLattice.Binary64
