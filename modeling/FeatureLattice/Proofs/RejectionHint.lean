import FeatureLattice.Proofs.RejectionPlace
import Mathlib.Data.List.DropRight

/-!
# Hints for rejected texts

The hint for a rejected text comes from a scanner of its own, which strips the text at both ends and
looks at the first character. It strips information separators as well, which are no white space to
the reader. Unless the text goes on with one behind its white space, the hint is about the opening
exactly if something else stands there than a star or a brace.
-/
namespace FeatureLattice

namespace Text

variable {s t w : List Char} {c : Char}

/-- A character that is stripped off the ends of a text: white space or an information separator. -/
def Strippable (c : Char) : Prop := WhiteSpace c ∨ 0x1c ≤ c.toNat ∧ c.toNat ≤ 0x1f

theorem isStrippable_iff : isStrippable c = true ↔ Strippable c := by
  simp [isStrippable, Strippable, isWhiteSpace_iff]

/-- A text and what is left of it once both ends are stripped. -/
structure StripsTo (s t : List Char) : Prop where
  around : ∃ w w', s = w ++ (t ++ w') ∧ (∀ c ∈ w, Strippable c) ∧ ∀ c ∈ w', Strippable c
  head : ∀ c ∈ t.head?, ¬ Strippable c
  last : ∀ c ∈ t.getLast?, ¬ Strippable c

/-- Strip both ends of a text. -/
def strip (s : List Char) : List Char := (s.dropWhile isStrippable).rdropWhile isStrippable

theorem stripsTo_strip (s : List Char) : StripsTo s (strip s) where
  around := by
    refine ⟨s.takeWhile isStrippable, (s.dropWhile isStrippable).rtakeWhile isStrippable, ?_,
      fun c hc => isStrippable_iff.1 (List.mem_takeWhile_imp hc),
      fun c hc => isStrippable_iff.1 (List.mem_rtakeWhile_imp hc)⟩
    rw [strip, List.rdropWhile_append_rtakeWhile, List.takeWhile_append_dropWhile]
  head c hc hs := by
    obtain ⟨more, hmore⟩ := List.head?_eq_some_iff.1 hc
    obtain ⟨rest, hrest⟩ : strip s <+: s.dropWhile isStrippable :=
      List.rdropWhile_prefix _ _
    have hn := List.head?_dropWhile_not isStrippable s
    rw [← hrest, hmore] at hn
    simp [isStrippable_iff.2 hs] at hn
  last c hc hs := by
    obtain ⟨hne, rfl⟩ := List.mem_getLast?_eq_getLast hc
    exact List.rdropWhile_last_not _ _ hne (isStrippable_iff.2 hs)

/-- Stripping takes a run of blanks off the text, and leaves a text that starts with none. -/
theorem dropWhile_strippable_append (hw : ∀ c ∈ w, Strippable c)
    (hs : ∀ c ∈ s.head?, ¬ Strippable c) : (w ++ s).dropWhile isStrippable = s := by
  rw [List.dropWhile_append_of_pos fun c hc => isStrippable_iff.2 (hw c hc)]
  cases s with
  | nil => rfl
  | cons c s => exact List.dropWhile_cons_of_neg fun h => hs c rfl (isStrippable_iff.1 h)

/-- There is one way only to strip a text. -/
theorem StripsTo.eq_strip (h : StripsTo s t) : t = strip s := by
  obtain ⟨⟨w, w', rfl, hw, hw'⟩, hhead, hlast⟩ := h
  have hright : (t ++ w').rdropWhile isStrippable = t := by
    rw [List.rdropWhile, List.reverse_append, dropWhile_strippable_append, List.reverse_reverse]
    · exact fun c hc => hw' c (List.mem_reverse.1 hc)
    · rwa [List.head?_reverse]
  cases t with
  | nil =>
    have hblank : ∀ c ∈ w ++ w', Strippable c := List.forall_mem_append.2 ⟨hw, hw'⟩
    have hdrop := dropWhile_strippable_append (s := []) hblank (by simp)
    rw [List.append_nil] at hdrop
    rw [strip, List.nil_append, hdrop, List.rdropWhile_nil]
  | cons c t =>
    have hhead' : ∀ d ∈ (c :: t ++ w').head?, ¬ Strippable d := hhead
    rw [strip, dropWhile_strippable_append hw hhead', hright]

end Text

namespace Context
open Text

variable {s t w rest : List Char} {c : Char}

/-- Blanks in front of a text make no difference to its hint. -/
theorem hintFor_append (hw : ∀ c ∈ w, Strippable c) (s : List Char) :
    hintFor (w ++ s) = hintFor s := by
  rw [hintFor, List.dropWhile_append_of_pos fun c hc => isStrippable_iff.2 (hw c hc), hintFor]

/-- The hint for a text that starts with no blank depends on its first character. -/
theorem hintFor_eq_shape_iff (hs : ∀ c ∈ s.head?, ¬ Strippable c) :
    hintFor s = .shape ↔ ∀ c ∈ s.head?, c = '*' ∨ c = '{' := by
  have hdrop : s.dropWhile isStrippable = s := dropWhile_strippable_append (w := []) (by simp) hs
  rw [hintFor, hdrop]
  cases s with
  | nil => simp
  | cons c s => simp [or_iff_not_imp_left]

/-- The hint for a text depends on what is left when both of its ends are stripped. -/
theorem hintFor_eq_shape_iff_of_stripsTo (h : StripsTo s t) :
    hintFor s = .shape ↔ ∀ c ∈ t.head?, c = '*' ∨ c = '{' := by
  obtain ⟨⟨w, w', rfl, hw, hw'⟩, hhead, -⟩ := h
  rw [hintFor_append hw]
  cases t with
  | nil =>
    rw [List.nil_append, ← List.append_nil w', hintFor_append hw']
    exact hintFor_eq_shape_iff (by simp)
  | cons c t => exact hintFor_eq_shape_iff hhead

/-- No blank opens a context. -/
theorem not_strippable_of_opening (hc : c = '*' ∨ c = '{') : ¬ Strippable c := by
  rw [← isStrippable_iff]
  rcases hc with rfl | rfl <;> decide

theorem text_eq_opening {hint : Hint} (h : hint.text = "a context starts with '*' or '\x7b'") :
    hint = .opening := by
  cases hint with
  | opening => rfl
  | shape => exact absurd h (by decide)

theorem text_eq_shape {hint : Hint} (h : hint.text = "expected '*' or '\x7bname, ...\x7d'") :
    hint = .shape := by
  cases hint with
  | opening => exact absurd h (by decide)
  | shape => rfl

/-- Where a star or a brace stands, or nothing, the hint shows the shape of a context. -/
theorem hintFor_of_opening (hs : s = w ++ rest) (hw : Blank w)
    (hopen : ∀ c ∈ rest.head?, c = '*' ∨ c = '{') : hintFor s = .shape := by
  rw [hs, hintFor_append fun c hc => .inl (hw c hc),
    hintFor_eq_shape_iff fun c hc => not_strippable_of_opening (hopen c hc)]
  exact hopen

/-- If the hint is about the opening then that is where the text fails. -/
theorem FailsAt.of_hintFor_opening {p : ℕ} (hp : FailsAt s p) (hs : s = w ++ rest) (hw : Blank w)
    (hflush : Flush rest) (h : hintFor s = .opening) :
    p = w.length ∧ ∃ c more, rest = c :: more ∧ c ≠ '*' ∧ c ≠ '{' := by
  have hno : ¬ ∀ c ∈ rest.head?, c = '*' ∨ c = '{' := by
    intro hopen
    rw [hintFor_of_opening hs hw hopen] at h
    cases h
  cases rest with
  | nil => exact absurd (by simp) hno
  | cons c more =>
    have hc : c ≠ '*' ∧ c ≠ '{' := by simpa using hno
    refine ⟨hp.opening w _ hs hw hflush ?_, c, more, rfl, hc⟩
    intro d hd
    obtain rfl := Option.some.inj hd
    exact hc

/-- If something else opens the text and the hint is not about it then a separator is to blame. -/
theorem separator_of_hintFor_shape {more : List Char} (hs : s = w ++ c :: more) (hw : Blank w)
    (hflush : Flush (c :: more)) (hstar : c ≠ '*') (hbrace : c ≠ '{') (h : hintFor s = .shape) :
    0x1c ≤ c.toNat ∧ c.toNat ≤ 0x1f := by
  have hc : Strippable c := by
    by_contra hc
    have hhead : ∀ d ∈ (c :: more).head?, ¬ Strippable d := by
      intro d hd
      obtain rfl := Option.some.inj hd
      exact hc
    rw [hs, hintFor_append fun c hc => .inl (hw c hc), hintFor_eq_shape_iff hhead] at h
    exact (h c rfl).elim hstar hbrace
  exact hc.resolve_left (hflush c rfl)

/-- **Hint and position tell one story, up to the two classes of blanks.** A hint about the opening
is given only where the text fails behind its white space, at a character that opens no context. The
other hint is given there only if the character is an information separator, which is stripped for
the hint: what is left is empty or starts with a star or a brace. It is always given if a star or a
brace stands there, or nothing. -/
theorem ofText_hint_position {text : String} (h : ¬ ∃ c, ofText text = .ok c) :
    ∃ (p : ℕ) (hint : String), ofText text = .error (.reported
        (.malformed ("malformed feature context " ++ quote text) text p hint)) ∧
      (hint = "a context starts with '*' or '\x7b'" ∨
        hint = "expected '*' or '\x7bname, ...\x7d'") ∧
      ∃ w rest, text.toList = w ++ rest ∧ Blank w ∧ Flush rest ∧
        (hint = "a context starts with '*' or '\x7b'" →
          p = w.length ∧ ∃ c more, rest = c :: more ∧ c ≠ '*' ∧ c ≠ '{') ∧
        (∀ c more, rest = c :: more → c ≠ '*' → c ≠ '{' →
          hint = "expected '*' or '\x7bname, ...\x7d'" →
            (0x1c ≤ c.toNat ∧ c.toNat ≤ 0x1f) ∧
            ∃ t, (∀ t', StripsTo text.toList t' ↔ t' = t) ∧ ∀ d ∈ t.head?, d = '*' ∨ d = '{') ∧
        ((∀ c ∈ rest.head?, c = '*' ∨ c = '{') →
          hint = "expected '*' or '\x7bname, ...\x7d'") := by
  obtain ⟨left, hleft⟩ := rejected_iff.1 h
  obtain ⟨⟨w, hw, hs⟩, hflush⟩ := skipWhiteSpace_split text.toList
  generalize skipWhiteSpace text.toList = rest at hs hflush
  refine ⟨_, _, ofText_of_readAll hleft, ?_, w, rest, hs, hw, hflush, ?_, ?_, ?_⟩
  · cases hintFor text.toList with
    | opening => exact .inl rfl
    | shape => exact .inr rfl
  · intro hopening
    exact (failsAt_of_readAll hleft).of_hintFor_opening hs hw hflush (text_eq_opening hopening)
  · rintro c more rfl hstar hbrace hexpected
    have hshape := text_eq_shape hexpected
    refine ⟨separator_of_hintFor_shape hs hw hflush hstar hbrace hshape, strip text.toList,
      fun t => ⟨StripsTo.eq_strip, ?_⟩, ?_⟩
    · rintro rfl
      exact stripsTo_strip _
    · exact (hintFor_eq_shape_iff_of_stripsTo (stripsTo_strip _)).1 hshape
  · intro hopen
    rw [hintFor_of_opening hs hw hopen]
    rfl

/-- A separator in front of a star: the text fails at the separator, and the hint sees the star. -/
theorem ofText_hint_position_separator : (¬ ∃ c, ofText "\x1c*" = .ok c) ∧
    (∃ p, ofText "\x1c*" = .error (.reported (.malformed
      ("malformed feature context " ++ quote "\x1c*") "\x1c*" p
      "expected '*' or '\x7bname, ...\x7d'"))) ∧
    ∃ t, (∀ t', StripsTo "\x1c*".toList t' ↔ t' = t) ∧ ∀ d ∈ t.head?, d = '*' ∨ d = '{' := by
  have hread : readAll "\x1c*".toList = .error 2 := by decide +kernel
  have hrejected : ¬ ∃ c, ofText "\x1c*" = .ok c := rejected_iff.2 ⟨2, hread⟩
  have hshape : hintFor "\x1c*".toList = .shape := by decide +kernel
  obtain ⟨p, hint, heq, -, w, rest, hs, hw, hflush, -, hseparator, -⟩ :=
    ofText_hint_position hrejected
  have hrest : rest = ['\x1c', '*'] := by
    rw [← skipWhiteSpace_append hw hflush, ← hs]
    decide +kernel
  have hhint : hint = "expected '*' or '\x7bname, ...\x7d'" := by
    rw [ofText_of_readAll hread, hshape] at heq
    exact (FeatureError.malformed.inj (Fault.reported.inj (Except.error.inj heq))).2.2.2.symm
  obtain ⟨-, hstripped⟩ := hseparator _ _ hrest (by decide) (by decide) hhint
  exact ⟨hrejected, ⟨p, hhint ▸ heq⟩, hstripped⟩

end Context

end FeatureLattice
