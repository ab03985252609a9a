import FeatureLattice.Text.CharacterClass

/-!
# Written feature names

A name is written bare if it is an ASCII identifier, in which dots and hyphens may also occur after
the first character. Any other name stands between quotation marks, with a backslash before each
backslash and quotation mark of its own. A reader accepts more than the printer writes: a backslash
may stand before any character but the line feed, and is dropped. Reading takes as many characters
as a bare name has, or all up to the first quotation mark that stands behind no backslash.
-/
namespace FeatureLattice.Name

/-- Characters that can start a bare name. -/
def isBareStart (c : Char) : Bool := c.isAlpha || c = '_'

/-- Characters that can continue a bare name. -/
def isBareRest (c : Char) : Bool := c.isAlphanum || c = '_' || c = '.' || c = '-'

/-- Whether a text starts with a bare name. -/
def startsBare : List Char → Bool
  | [] => false
  | c :: _ => isBareStart c

/-- Whether a text is a bare name as a whole. -/
def isBare : List Char → Bool
  | [] => false
  | c :: cs => isBareStart c && cs.all isBareRest

def escape (c : Char) : List Char := if c = '\\' ∨ c = '"' then ['\\', c] else [c]

/-- The written form of a name. -/
def written (name : List Char) : List Char :=
  if isBare name then name else '"' :: (name.flatMap escape ++ ['"'])

/-- Read a quoted name after its opening mark: the name, and what follows the closing mark. -/
def readQuoted : List Char → Option (List Char × List Char)
  | [] => none
  | '"' :: rest => some ([], rest)
  | '\\' :: c :: rest =>
    if c = '\n' then none else (readQuoted rest).map fun (name, rest) => (c :: name, rest)
  | c :: rest =>
    if c = '\\' then none else (readQuoted rest).map fun (name, rest) => (c :: name, rest)

/-- Read a name at the start of a text: the name, and what follows it. -/
def read : List Char → Option (List Char × List Char)
  | [] => none
  | c :: cs =>
    if isBareStart c then some (c :: cs.takeWhile isBareRest, cs.dropWhile isBareRest)
    else if c = '"' then readQuoted cs
    else none

theorem length_lt_of_readQuoted {s name rest : List Char}
    (h : readQuoted s = some (name, rest)) : rest.length < s.length := by
  fun_induction readQuoted s generalizing name rest with
  | case1 => simp at h
  | case2 r => simp_all
  | case3 => simp at h
  | case4 c r _ ih =>
    obtain ⟨⟨n, r'⟩, hr, he⟩ := Option.map_eq_some_iff.1 h
    have := ih hr
    simp_all only [Prod.mk.injEq, List.length_cons]
    omega
  | case5 => simp at h
  | case6 c r _ _ _ ih =>
    obtain ⟨⟨n, r'⟩, hr, he⟩ := Option.map_eq_some_iff.1 h
    have := ih hr
    simp_all only [Prod.mk.injEq, List.length_cons]
    omega

theorem length_lt_of_read {s name rest : List Char} (h : read s = some (name, rest)) :
    rest.length < s.length := by
  cases s with
  | nil => simp [read] at h
  | cons c cs =>
    simp only [read] at h
    split at h
    · have := (List.dropWhile_sublist isBareRest (l := cs)).length_le
      simp_all only [Option.some.injEq, Prod.mk.injEq, List.length_cons]
      omega
    · split at h
      · have := length_lt_of_readQuoted h
        simp only [List.length_cons]
        omega
      · simp at h

end FeatureLattice.Name
