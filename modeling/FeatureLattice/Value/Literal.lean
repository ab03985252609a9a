import FeatureLattice.Context.Printer
import FeatureLattice.Value.Notebook
import FeatureLattice.Value.Order

/-!
# Literal and display forms of values

The literal form of a value shows its kind: texts are quoted, and a set names its type. The elements
of a set are listed in ascending order if any two of them can be compared, and by their literal
forms otherwise, so that the form does not depend on how the set was filled. For frozen sets neither
of which includes the other this is one choice among others, as their place in a sorted list is not
settled by the values. The display form is for reading: a text stands for itself and a context is
written as users write it.
-/
namespace FeatureLattice

/-- Texts with a comma and a blank between neighbours. -/
def listed (parts : List String) : String := ", ".intercalate parts

def ContextKind.name : ContextKind → String
  | .universal => "universal"
  | .concrete => "concrete"

def ContextKind.constructorName : ContextKind → String
  | .universal => "ContextKind.UNIVERSAL"
  | .concrete => "ContextKind.CONCRETE"

namespace Value

/-- Put elements in the order of listing; each comes with its literal form. -/
def arranged (elements : List (Value × String)) : List (Value × String) :=
  if allComparable (elements.map Prod.fst) then elements.mergeSort fun a b => notAfter a.1 b.1
  else elements.mergeSort fun a b => a.2 ≤ b.2

/-- The literal form of a set from those of its elements. -/
def collectionLiteral (form : CollectionForm) (elements : List (Value × String)) : String :=
  let body := "\x7b" ++ listed ((arranged elements).map Prod.snd) ++ "\x7d"
  match form, elements.isEmpty with
  | .set, true => "set()"
  | .set, false => body
  | .frozenset, true => "frozenset()"
  | .frozenset, false => "frozenset(" ++ body ++ ")"
  | .valueSet, true => "ValueSet()"
  | .valueSet, false => "ValueSet(" ++ body ++ ")"

/-- The literal form of a sequence from those of its items: a tuple of one item keeps a comma. -/
def sequenceLiteral (form : SequenceForm) (items : List String) : String :=
  match form, items with
  | .tuple, [item] => "(" ++ item ++ ",)"
  | .tuple, _ => "(" ++ listed items ++ ")"
  | .list, _ => "[" ++ listed items ++ "]"
  | .iterator, _ => "<generator>"

mutual

/-- The literal form of a value, with the notes that its tags have now. -/
def literal (nb : Notebook) : Value → String
  | absent => "None"
  | number n => n.text
  | str s => Text.quote s
  | bytes bs => Text.quoteBytes bs
  | context c => c.literal
  | kind k => "<" ++ k.constructorName ++ ": " ++ Text.quote k.name ++ ">"
  | lattice l => l.literal
  | tag t =>
    "Tag(" ++ Text.quote t.name ++ ", [" ++ listed ((nb.notes t.id).map Text.quote) ++ "])"
  | sequence form items => sequenceLiteral form (itemLiterals nb items)
  | collection form items => collectionLiteral form (items.zip (itemLiterals nb items))
  termination_by structural v => v

def itemLiterals (nb : Notebook) : List Value → List String
  | [] => []
  | x :: xs => literal nb x :: itemLiterals nb xs
  termination_by structural xs => xs

end

/-- The display form of a value. -/
def display (nb : Notebook) : Value → String
  | str s => s
  | context c => c.written
  | kind k => k.constructorName
  | v => literal nb v

end Value

end FeatureLattice
