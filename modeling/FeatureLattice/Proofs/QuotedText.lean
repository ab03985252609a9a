import FeatureLattice.Text.Quoted
import Mathlib.Algebra.Ring.Nat
import Mathlib.Tactic.SplitIfs

/-!
# Quoted texts delimit themselves

The quotes of a text depend on the text, and so does what stands for a character between them. Still
a quoted text tells where it ends, whatever follows it, and which text it quotes. For a single
character this is shown by reading it back: the character behind a backslash decides how many more
there are. From characters it passes to texts, since nothing between quotes starts with the quote.
-/
namespace FeatureLattice

/-- A code whose words delimit themselves: the word at the front of a text, and what follows it, can
be told from the text. -/
def SelfDelimiting {α β : Type} (code : α → List β) : Prop :=
  ∀ ⦃a b : α⦄ ⦃s t : List β⦄, code a ++ s = code b ++ t → a = b ∧ s = t

/-- No word of a code starts with the stop, and none is empty. -/
def StartsApart {α β : Type} (code : α → List β) (stop : β) : Prop :=
  ∀ a, ∃ c w, code a = c :: w ∧ c ≠ stop

namespace SelfDelimiting

variable {α β : Type} {code : α → List β} {stop : β}

/-- A code delimits itself if its words can be read. -/
theorem of_read {read : List β → Option (α × List β)}
    (h : ∀ a s, read (code a ++ s) = some (a, s)) : SelfDelimiting code := by
  intro a b s t he
  have hread : some (a, s) = some (b, t) := by
    rw [← h a s, ← h b t, he]
  simpa using hread

theorem injective (h : SelfDelimiting code) : Function.Injective code := by
  intro a b he
  have hword : code a ++ [] = code b ++ [] := by rw [he]
  exact (h hword).1

/-- Texts in front of the words do not matter if all words have the same one. -/
theorem append_left (h : SelfDelimiting code) (front : List β) :
    SelfDelimiting fun a => front ++ code a := by
  intro a b s t he
  rw [List.append_assoc, List.append_assoc] at he
  exact h (List.append_cancel_left he)

/-- A sequence of words up to a stop delimits itself. -/
theorem flatMap (h : SelfDelimiting code) (hstop : StartsApart code stop) :
    SelfDelimiting fun as : List α => as.flatMap code ++ [stop] := by
  intro as bs s t he
  induction as generalizing bs with
  | nil =>
    cases bs with
    | nil => simpa using he
    | cons b bs =>
      obtain ⟨c, w, hb, hc⟩ := hstop b
      simp only [List.flatMap_nil, List.flatMap_cons, hb, List.nil_append, List.cons_append] at he
      exact absurd (List.cons.inj he).1.symm hc
  | cons a as ih =>
    cases bs with
    | nil =>
      obtain ⟨c, w, ha, hc⟩ := hstop a
      simp only [List.flatMap_nil, List.flatMap_cons, ha, List.nil_append, List.cons_append] at he
      exact absurd (List.cons.inj he).1 hc
    | cons b bs =>
      simp only [List.flatMap_cons, List.append_assoc] at he
      obtain ⟨rfl, hrest⟩ := h he
      have hmore : as.flatMap code ++ [stop] ++ s = bs.flatMap code ++ [stop] ++ t := by
        simpa using hrest
      obtain ⟨rfl, hst⟩ := ih hmore
      exact ⟨rfl, hst⟩

end SelfDelimiting

namespace Text

/-- The value of a hexadecimal digit. -/
def digitValue (c : Char) : Nat :=
  if c.toNat < 'a'.toNat then c.toNat - '0'.toNat else c.toNat - 'a'.toNat + 10

/-- The value of a sequence of hexadecimal digits, most significant first. -/
def digitsValue (cs : List Char) : Nat := cs.foldl (fun n c => n * 16 + digitValue c) 0

/-- Read a character by its code of so many digits. -/
def readCode (width : Nat) (s : List Char) : Char × List Char :=
  (Char.ofNat (digitsValue (s.take width)), s.drop width)

/-- Read a character as it stands between quotes. -/
def readEscaped : List Char → Option (Char × List Char)
  | [] => none
  | '\\' :: 'n' :: s => some ('\n', s)
  | '\\' :: 'r' :: s => some ('\r', s)
  | '\\' :: 't' :: s => some ('\t', s)
  | '\\' :: 'x' :: s => some (readCode 2 s)
  | '\\' :: 'u' :: s => some (readCode 4 s)
  | '\\' :: 'U' :: s => some (readCode 8 s)
  | '\\' :: c :: s => some (c, s)
  | c :: s => some (c, s)

theorem digitValue_hexDigit : ∀ n < 16, digitValue (hexDigit n) = n := by
  decide

@[simp] theorem length_hexDigits (width n : Nat) : (hexDigits width n).length = width := by
  induction width generalizing n with
  | zero => rfl
  | succ width ih => simp [hexDigits, ih]

theorem digitsValue_append (cs : List Char) (c : Char) :
    digitsValue (cs ++ [c]) = digitsValue cs * 16 + digitValue c := by
  simp [digitsValue]

theorem digitsValue_hexDigits {width n : Nat} (h : n < 16 ^ width) :
    digitsValue (hexDigits width n) = n := by
  induction width generalizing n with
  | zero =>
    obtain rfl : n = 0 := by simpa using h
    rfl
  | succ width ih =>
    have hrest : n / 16 < 16 ^ width := by
      rw [Nat.pow_succ] at h
      omega
    have hlast : n % 16 < 16 := Nat.mod_lt n (by decide)
    rw [hexDigits, digitsValue_append, ih hrest, digitValue_hexDigit _ hlast]
    omega

theorem readCode_hexDigits {width : Nat} {c : Char} (h : c.toNat < 16 ^ width) (s : List Char) :
    readCode width (hexDigits width c.toNat ++ s) = (c, s) := by
  simp [readCode, digitsValue_hexDigits h]

/-- Each of the three widths is used for codes that it has room for. -/
theorem readEscaped_escapeCode (c : Char) (s : List Char) :
    readEscaped (escapeCode c.toNat ++ s) = some (c, s) := by
  have hwidest : c.toNat < 16 ^ 8 := by
    have hcode : c.toNat < 2 ^ 32 := c.val.toNat_lt
    omega
  unfold escapeCode
  split_ifs with h2 h4
  · show some (readCode 2 (hexDigits 2 c.toNat ++ s)) = _
    rw [readCode_hexDigits (by omega)]
  · show some (readCode 4 (hexDigits 4 c.toNat ++ s)) = _
    rw [readCode_hexDigits (by omega)]
  · show some (readCode 8 (hexDigits 8 c.toNat ++ s)) = _
    rw [readCode_hexDigits hwidest]

/-- Without a backslash a character stands for itself. -/
theorem readEscaped_cons {c : Char} (h : c ≠ '\\') (s : List Char) :
    readEscaped (c :: s) = some (c, s) := by
  unfold readEscaped
  split <;> simp_all

/-- There are two kinds of quotes. -/
theorem quoteFor_eq (s : List Char) : quoteFor s = '\'' ∨ quoteFor s = '"' := by
  unfold quoteFor
  split_ifs <;> simp

/-- A character is read back from what stands for it between quotes of either kind. -/
theorem readEscaped_escapeWithin {quote : Char} (hquote : quote = '\'' ∨ quote = '"') (c : Char)
    (s : List Char) : readEscaped (escapeWithin quote c ++ s) = some (c, s) := by
  unfold escapeWithin
  by_cases hself : c = '\\' ∨ c = quote
  · rw [if_pos hself]
    rcases hself with rfl | rfl
    · rfl
    · rcases hquote with rfl | rfl <;> rfl
  · rw [if_neg hself]
    by_cases hfeed : c = '\n'
    · subst c
      rfl
    by_cases hreturn : c = '\r'
    · subst c
      rfl
    by_cases htab : c = '\t'
    · subst c
      rfl
    rw [if_neg hfeed, if_neg hreturn, if_neg htab]
    split_ifs
    · exact readEscaped_cons (fun h => hself (.inl h)) s
    · exact readEscaped_escapeCode c s

theorem escapeCode_eq_cons (n : Nat) : ∃ w, escapeCode n = '\\' :: w := by
  unfold escapeCode
  split_ifs <;> exact ⟨_, rfl⟩

/-- A character that is not the quote stands for itself, or a backslash comes first. -/
theorem escapeWithin_cases (quote c : Char) :
    (escapeWithin quote c = [c] ∧ c ≠ quote) ∨ ∃ w, escapeWithin quote c = '\\' :: w := by
  unfold escapeWithin
  by_cases hself : c = '\\' ∨ c = quote
  · rw [if_pos hself]
    exact .inr ⟨[c], rfl⟩
  · rw [if_neg hself]
    split_ifs
    · exact .inr ⟨['n'], rfl⟩
    · exact .inr ⟨['r'], rfl⟩
    · exact .inr ⟨['t'], rfl⟩
    · exact .inl ⟨rfl, fun h => hself (.inr h)⟩
    · exact .inr (escapeCode_eq_cons c.toNat)

/-- Between quotes nothing starts with the quote. -/
theorem startsApart_escapeWithin {quote : Char} (hquote : quote = '\'' ∨ quote = '"') :
    StartsApart (escapeWithin quote) quote := by
  have hback : '\\' ≠ quote := by
    rcases hquote with rfl | rfl <;> decide
  intro c
  rcases escapeWithin_cases quote c with ⟨hc, hne⟩ | ⟨w, hw⟩
  · exact ⟨c, [], hc, hne⟩
  · exact ⟨'\\', w, hw, hback⟩

/-- A quoted text tells where it ends and which text it quotes. -/
theorem selfDelimiting_quoteChars : SelfDelimiting quoteChars := by
  intro x y s t he
  have hquote : quoteFor x = quoteFor y := (List.cons.inj he).1
  have hrest := (List.cons.inj he).2
  rw [← hquote] at hrest
  have hcode : SelfDelimiting (escapeWithin (quoteFor x)) :=
    .of_read (readEscaped_escapeWithin (quoteFor_eq x))
  exact hcode.flatMap (startsApart_escapeWithin (quoteFor_eq x)) hrest

end Text

end FeatureLattice
