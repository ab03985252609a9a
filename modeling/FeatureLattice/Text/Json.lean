import FeatureLattice.Text.Quoted

/-!
# JSON output

Documents of nulls, truth values, texts, arrays and objects on one line, with a blank after each
comma and colon. Inside a text the characters from the blank to the tilde stand for themselves, the
quotation mark and the backslash apart; every other character becomes an escape, by a letter or by
its one or two UTF-16 units. So a document is written in printable ASCII throughout.
-/
namespace FeatureLattice.Text

/-- A JSON document without numbers. -/
inductive Json where
  | null
  | bool (b : Bool)
  | str (s : String)
  | arr (items : List Json)
  | obj (fields : List (String × Json))

namespace Json

/-- One UTF-16 unit as an escape. -/
def escapeUnit (n : Nat) : List Char := '\\' :: 'u' :: hexDigits 4 n

/-- From the blank to the tilde: the characters of ASCII that can be printed. -/
def isPlain (c : Char) : Bool := 0x20 ≤ c.toNat && c.toNat < 0x7f

def escape (c : Char) : List Char :=
  let n := c.toNat
  if c = '"' then ['\\', '"']
  else if c = '\\' then ['\\', '\\']
  else if c = '\n' then ['\\', 'n']
  else if c = '\r' then ['\\', 'r']
  else if c = '\t' then ['\\', 't']
  else if n = 0x8 then ['\\', 'b']
  else if n = 0xc then ['\\', 'f']
  else if isPlain c then [c]
  else if n < 0x10000 then escapeUnit n
  else escapeUnit (0xd800 + (n - 0x10000) / 0x400) ++ escapeUnit (0xdc00 + (n - 0x10000) % 0x400)

def quoted (s : String) : String :=
  String.ofList ('"' :: (s.toList.flatMap escape ++ ['"']))

mutual

/-- A document on one line. -/
def text : Json → String
  | null => "null"
  | bool true => "true"
  | bool false => "false"
  | str s => quoted s
  | arr items => "[" ++ ", ".intercalate (itemTexts items) ++ "]"
  | obj fields => "\x7b" ++ ", ".intercalate (fieldTexts fields) ++ "\x7d"
  termination_by structural j => j

def itemTexts : List Json → List String
  | [] => []
  | item :: items => text item :: itemTexts items
  termination_by structural items => items

def fieldTexts : List (String × Json) → List String
  | [] => []
  | (key, item) :: fields => (quoted key ++ ": " ++ text item) :: fieldTexts fields
  termination_by structural fields => fields

end

/-! ## The characters of a document -/

theorem isPlain_hexDigit : ∀ n < 16, isPlain (hexDigit n) = true := by decide

theorem all_isPlain_hexDigits (width n : Nat) : (hexDigits width n).all isPlain = true := by
  induction width generalizing n with
  | zero => rfl
  | succ width ih =>
    have hlast : isPlain (hexDigit (n % 16)) = true := isPlain_hexDigit _ (Nat.mod_lt n (by decide))
    simp [hexDigits, ih, hlast]

theorem all_isPlain_escapeUnit (n : Nat) : (escapeUnit n).all isPlain = true := by
  have hstart : (['\\', 'u'] ++ hexDigits 4 n).all isPlain = true := by
    rw [List.all_append, all_isPlain_hexDigits]
    decide
  exact hstart

theorem all_isPlain_escape (c : Char) : (escape c).all isPlain = true := by
  fun_cases escape c
  case case8 hc => simp [hc]
  case case9 => exact all_isPlain_escapeUnit _
  case case10 => simp [all_isPlain_escapeUnit]
  all_goals decide

def isPlainText (s : String) : Bool := s.toList.all isPlain

theorem isPlainText_append (s t : String) :
    isPlainText (s ++ t) = (isPlainText s && isPlainText t) := by
  simp [isPlainText]

theorem isPlainText_commaSeparated {parts : List String}
    (h : ∀ t ∈ parts, isPlainText t = true) : isPlainText (", ".intercalate parts) = true := by
  have hcomma : isPlainText ", " = true := by decide
  induction parts with
  | nil => decide
  | cons t parts ih =>
    obtain ⟨ht, hparts⟩ := List.forall_mem_cons.1 h
    cases parts with
    | nil => simpa using ht
    | cons u parts =>
      rw [String.intercalate_cons_cons, isPlainText_append, isPlainText_append, ht, hcomma,
        ih hparts]
      rfl

theorem isPlainText_quoted (s : String) : isPlainText (quoted s) = true := by
  have hquote : isPlain '"' = true := by decide
  have hbody : (s.toList.flatMap escape).all isPlain = true := by
    simp only [List.all_flatMap, all_isPlain_escape, List.all_eq_true, implies_true]
  simp [isPlainText, quoted, hquote, hbody]

mutual

/-- Whatever texts a document holds, it is written in plain characters. -/
theorem isPlainText_text : ∀ j : Json, isPlainText j.text = true
  | null => by decide
  | bool true => by decide
  | bool false => by decide
  | str s => isPlainText_quoted s
  | arr items => by
    have hitems := isPlainText_commaSeparated (isPlainText_itemTexts items)
    rw [text, isPlainText_append, isPlainText_append, hitems]
    decide
  | obj fields => by
    have hfields := isPlainText_commaSeparated (isPlainText_fieldTexts fields)
    rw [text, isPlainText_append, isPlainText_append, hfields]
    decide

theorem isPlainText_itemTexts : ∀ items : List Json, ∀ t ∈ itemTexts items, isPlainText t = true
  | [] => nofun
  | item :: items => List.forall_mem_cons.2 ⟨isPlainText_text item, isPlainText_itemTexts items⟩

theorem isPlainText_fieldTexts :
    ∀ fields : List (String × Json), ∀ t ∈ fieldTexts fields, isPlainText t = true
  | [] => nofun
  | (key, item) :: fields => by
    have hfield : isPlainText (quoted key ++ ": " ++ text item) = true := by
      rw [isPlainText_append, isPlainText_append, isPlainText_quoted, isPlainText_text]
      decide
    exact List.forall_mem_cons.2 ⟨hfield, isPlainText_fieldTexts fields⟩

end

/-- The first character behind the plain ones is not written as it is. -/
example : (str "~\x7f").text = "\"~\\u007f\"" := by decide

end Json

end FeatureLattice.Text
