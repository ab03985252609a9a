import FeatureLattice.Context
import FeatureLattice.Context.Name
import FeatureLattice.Text.Quoted

/-!
# Written and literal forms of contexts

Both forms list the names in ascending code-point order. The written form is the one that reading
takes back; the literal form shows the constructor and quotes every name.
-/
namespace FeatureLattice

/-- The written form of a feature name. -/
def writtenName (name : String) : String := String.ofList (Name.written name.toList)

namespace Context

/-- Texts with a comma and a blank between neighbours. -/
def commaSeparated (parts : List (List Char)) : List Char := [',', ' '].intercalate parts

def writtenChars : Context → List Char
  | universal => ['*']
  | concrete s => '{' :: (commaSeparated (s.names.map fun x => Name.written x.toList) ++ ['}'])

/-- The written form of a context. -/
def written (c : Context) : String := String.ofList c.writtenChars

def literalChars : Context → List Char
  | universal => "FeatureContext.ALL".toList
  | concrete s =>
    if s.names = [] then "FeatureContext.NONE".toList
    else "FeatureContext.of(".toList ++
      commaSeparated (s.names.map fun x => Text.quoteChars x.toList) ++ [')']

/-- The literal form of a context. -/
def literal (c : Context) : String := String.ofList c.literalChars

end Context

end FeatureLattice
