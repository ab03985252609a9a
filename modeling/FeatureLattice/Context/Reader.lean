import FeatureLattice.Context
import FeatureLattice.Context.Name

/-!
# Reading written contexts

A written context is a star, for the universal context, or a list of names between braces. White
space may surround every part, names are separated by commas, and one more comma may follow the
last name. A text that is no written context is rejected at a position: where a part was due and
something else stood. Inside unclosed braces that is the last place where a name was due and no
bare name stood, or the opening brace itself if there is no such place.
-/
namespace FeatureLattice
open Text

/-- What a rejected text should have looked like. -/
inductive Hint where
  /-- The text starts with something that opens no context. -/
  | opening
  | shape
  deriving DecidableEq

/-- Why a text is no written context: a position in it, and a hint. -/
structure Rejection where
  position : Nat
  hint : Hint
  deriving DecidableEq

namespace Context

/-- What stands inside braces: the names, the text from where the closing brace is due, and how
much text was left at each place where a name was due and no bare name stood. -/
structure Listing where
  names : List String
  rest : List Char
  marks : List Nat

/-- Put a name that was read from the start of `due` in front of a listing. -/
def Listing.cons (name due : List Char) (l : Listing) : Listing :=
  ⟨String.ofList name :: l.names, l.rest,
    if Name.startsBare due then l.marks else due.length :: l.marks⟩

/-- Read what follows a name inside braces. -/
def readMore (s : List Char) : Listing :=
  match _hs : skipWhiteSpace s with
  | ',' :: r =>
    match _hr : Name.read (skipWhiteSpace r) with
    | some (name, rest) => (readMore rest).cons name (skipWhiteSpace r)
    | none => ⟨[], skipWhiteSpace r, [(skipWhiteSpace r).length]⟩
  | rest => ⟨[], rest, []⟩
  termination_by s.length
  decreasing_by
    have h₁ := Name.length_lt_of_read _hr
    have h₂ := length_skipWhiteSpace_le r
    have h₃ := length_skipWhiteSpace_le s
    rw [_hs, List.length_cons] at h₃
    omega

/-- Read what follows an opening brace. No name is due at the end of the text. -/
def readListing (s : List Char) : Listing :=
  let due := skipWhiteSpace s
  match Name.read due with
  | some (name, rest) => (readMore rest).cons name due
  | none => ⟨[], due, if due.isEmpty then [] else [due.length]⟩

/-- Read a star or a list in braces: the context and what follows it, or how much text was left
at the place of the failure. -/
def readTerm : List Char → Except Nat (Context × List Char)
  | '*' :: rest => .ok (universal, rest)
  | '{' :: s =>
    let l := readListing s
    match l.rest with
    | '}' :: rest => .ok (of l.names, rest)
    | _ => .error (l.marks.foldl min (s.length + 1))
  | s => .error s.length

/-- Read a whole text: the context, or how much text was left at the place of the failure. -/
def readAll (s : List Char) : Except Nat Context :=
  match readTerm (skipWhiteSpace s) with
  | .error left => .error left
  | .ok (c, rest) =>
    match skipWhiteSpace rest with
    | [] => .ok c
    | rest => .error rest.length

/-- The hint for a rejected text depends on its first character after all blanks, information
separators included. -/
def hintFor (s : List Char) : Hint :=
  match s.dropWhile isStrippable with
  | [] => .shape
  | c :: _ => if c = '*' ∨ c = '{' then .shape else .opening

/-- Read a written context. -/
def read (text : String) : Except Rejection Context :=
  let s := text.toList
  match readAll s with
  | .ok c => .ok c
  | .error left => .error ⟨s.length - left, hintFor s⟩

end Context

end FeatureLattice
