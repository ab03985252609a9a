import FeatureLattice.Text.CharacterClass

/-!
# Quoted text

A text is quoted by apostrophes, or by quotation marks if it has an apostrophe and no quotation
mark. Inside, the backslash and the chosen quote stand behind a backslash, the line feed, the
carriage return and the tabulator are written by their letters, and any other character that is
not printable by its code in the shortest of three fixed widths.
-/
namespace FeatureLattice.Text

def hexDigit (n : Nat) : Char :=
  if n < 10 then Char.ofNat ('0'.toNat + n) else Char.ofNat ('a'.toNat + (n - 10))

/-- The lowest `width` hexadecimal digits of a number, most significant first. -/
def hexDigits : Nat → Nat → List Char
  | 0, _ => []
  | width + 1, n => hexDigits width (n / 16) ++ [hexDigit (n % 16)]

/-- A character by its code, in two, four or eight hexadecimal digits. -/
def escapeCode (n : Nat) : List Char :=
  if n < 0x100 then '\\' :: 'x' :: hexDigits 2 n
  else if n < 0x10000 then '\\' :: 'u' :: hexDigits 4 n
  else '\\' :: 'U' :: hexDigits 8 n

/-- A character as it stands between the given quotes. -/
def escapeWithin (quote c : Char) : List Char :=
  if c = '\\' ∨ c = quote then ['\\', c]
  else if c = '\n' then ['\\', 'n']
  else if c = '\r' then ['\\', 'r']
  else if c = '\t' then ['\\', 't']
  else if isPrintable c then [c]
  else escapeCode c.toNat

/-- The quote for a text: a quotation mark if only apostrophes need avoiding. -/
def quoteFor (s : List Char) : Char :=
  if s.contains '\'' && !s.contains '"' then '"' else '\''

def quoteChars (s : List Char) : List Char :=
  let quote := quoteFor s
  quote :: (s.flatMap (escapeWithin quote) ++ [quote])

/-- A text in quotes. -/
def quote (s : String) : String := String.ofList (quoteChars s.toList)

/-- A byte as it stands between the given quotes: printable ASCII is written as it is. -/
def escapeByteWithin (quote : Char) (b : UInt8) : List Char :=
  let c := Char.ofNat b.toNat
  if b < 0x7f then escapeWithin quote c else escapeCode b.toNat

/-- A byte string in quotes, marked by a leading `b`. -/
def quoteBytes (bs : List UInt8) : String :=
  let quote := quoteFor (bs.map fun b => Char.ofNat b.toNat)
  String.ofList ('b' :: quote :: (bs.flatMap (escapeByteWithin quote) ++ [quote]))

end FeatureLattice.Text
