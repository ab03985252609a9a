import FeatureLattice.Context.Printer
import Mathlib.Data.List.TakeWhile

/-!
# The grammar of written names

A declarative account of names as they are written, in two spellings. The reader takes a spelling
off the front of a text and decodes it, and no more than that: a bare name ends where no character
of a bare name follows, a quoted one at its own closing mark. The written form of a name is a
spelling of it.
-/
namespace FeatureLattice

namespace Text

/-- A character with the property White_Space. -/
def WhiteSpace (c : Char) : Prop := ∃ r ∈ whiteSpaceRanges, r.1 ≤ c.toNat ∧ c.toNat ≤ r.2

/-- The search of an ascending table may stop at the first range above the code point. -/
theorem inRanges_iff {n : Nat} {ranges : List (Nat × Nat)}
    (h : ranges.Pairwise fun r s => r.1 ≤ s.1) :
    inRanges n ranges = true ↔ ∃ r ∈ ranges, r.1 ≤ n ∧ n ≤ r.2 := by
  induction ranges with
  | nil => simp [inRanges]
  | cons r ranges ih =>
    obtain ⟨lo, hi⟩ := r
    obtain ⟨hlo, hrest⟩ := List.pairwise_cons.1 h
    unfold inRanges
    by_cases hn : n < lo
    · simp only [hn, if_true, Bool.false_eq_true, false_iff]
      rintro ⟨r, hr, hle, -⟩
      rcases List.mem_cons.1 hr with rfl | hr
      · exact absurd hle (Nat.not_le.2 hn)
      · exact absurd ((hlo r hr).trans hle) (Nat.not_le.2 hn)
    · have hle : lo ≤ n := by omega
      simp [hn, ih hrest, hle]

theorem isWhiteSpace_iff {c : Char} : isWhiteSpace c = true ↔ WhiteSpace c :=
  inRanges_iff (by decide)

/-- A run of white space, which may be empty. -/
def Blank (w : List Char) : Prop := ∀ c ∈ w, WhiteSpace c

/-- A text that does not go on with white space. -/
def Flush (s : List Char) : Prop := ∀ c ∈ s.head?, ¬ WhiteSpace c

/-- Skipping white space takes a run of it off the text, and leaves none in front. -/
theorem skipWhiteSpace_split (s : List Char) :
    (∃ w, Blank w ∧ s = w ++ skipWhiteSpace s) ∧ Flush (skipWhiteSpace s) := by
  constructor
  · refine ⟨s.takeWhile isWhiteSpace, ?_, List.takeWhile_append_dropWhile.symm⟩
    intro c hc
    exact isWhiteSpace_iff.1 (List.mem_takeWhile_imp hc)
  · intro c hc hw
    have hn := List.head?_dropWhile_not isWhiteSpace s
    rw [skipWhiteSpace] at hc
    rw [Option.mem_def.1 hc] at hn
    simp [isWhiteSpace_iff.2 hw] at hn

theorem skipWhiteSpace_append {w s : List Char} (hw : Blank w) (hs : Flush s) :
    skipWhiteSpace (w ++ s) = s := by
  have hall : ∀ c ∈ w, isWhiteSpace c = true := fun c hc => isWhiteSpace_iff.2 (hw c hc)
  rw [skipWhiteSpace, List.dropWhile_append_of_pos hall]
  cases s with
  | nil => rfl
  | cons c s =>
    have hc : isWhiteSpace c ≠ true := fun h => hs c rfl (isWhiteSpace_iff.1 h)
    simp [hc]

end Text

namespace Name
open Text

/-- `[A-Za-z_]` -/
def BareStart (c : Char) : Prop := 'A' ≤ c ∧ c ≤ 'Z' ∨ 'a' ≤ c ∧ c ≤ 'z' ∨ c = '_'

/-- `[A-Za-z0-9_.-]` -/
def BareRest (c : Char) : Prop := BareStart c ∨ '0' ≤ c ∧ c ≤ '9' ∨ c = '.' ∨ c = '-'

/-- The inside of a quoted name and the name it stands for: a backslash makes a pair with the next
character, which is not the line feed, and is dropped. -/
inductive QuotedBody : List Char → List Char → Prop
  | nil : QuotedBody [] []
  | char {c : Char} {text name : List Char} : c ≠ '"' → c ≠ '\\' →
      QuotedBody text name → QuotedBody (c :: text) (c :: name)
  | pair {c : Char} {text name : List Char} : c ≠ '\n' →
      QuotedBody text name → QuotedBody ('\\' :: c :: text) (c :: name)

/-- A spelling of a name, and the name. -/
inductive Spelling : List Char → List Char → Prop
  | bare {c : Char} {cs : List Char} : BareStart c → (∀ d ∈ cs, BareRest d) →
      Spelling (c :: cs) (c :: cs)
  | quoted {text name : List Char} : QuotedBody text name →
      Spelling ('"' :: (text ++ ['"'])) name

theorem isAlpha_iff {c : Char} :
    c.isAlpha = true ↔ ('A' ≤ c ∧ c ≤ 'Z') ∨ 'a' ≤ c ∧ c ≤ 'z' := by
  have hupper : c.isUpper = true ↔ 'A' ≤ c ∧ c ≤ 'Z' := decide_eq_true_iff
  have hlower : c.isLower = true ↔ 'a' ≤ c ∧ c ≤ 'z' :=
    Bool.and_eq_true_iff.trans (and_congr decide_eq_true_iff decide_eq_true_iff)
  exact Bool.or_eq_true_iff.trans (or_congr hupper hlower)

theorem isBareStart_iff {c : Char} : isBareStart c = true ↔ BareStart c := by
  rw [isBareStart, Bool.or_eq_true, isAlpha_iff, decide_eq_true_eq, or_assoc, BareStart]

theorem isBareRest_iff {c : Char} : isBareRest c = true ↔ BareRest c := by
  have hdigit : c.isDigit = true ↔ '0' ≤ c ∧ c ≤ '9' :=
    Bool.and_eq_true_iff.trans (and_congr decide_eq_true_iff decide_eq_true_iff)
  have halphanum : c.isAlphanum = true ↔ c.isAlpha = true ∨ '0' ≤ c ∧ c ≤ '9' :=
    Bool.or_eq_true_iff.trans (or_congr_right hdigit)
  rw [BareRest, ← isBareStart_iff]
  simp only [isBareRest, isBareStart, Bool.or_eq_true, decide_eq_true_eq, halphanum, or_assoc]
  exact or_congr_right or_left_comm

/-- The characters of bare names lie between the hyphen and the letter z. -/
theorem BareRest.code {c : Char} (h : BareRest c) : 0x2d ≤ c.toNat ∧ c.toNat ≤ 0x7a := by
  have hle {c d : Char} (h : c ≤ d) : c.toNat ≤ d.toNat := h
  rcases h with (⟨hlo, hhi⟩ | ⟨hlo, hhi⟩ | rfl) | ⟨hlo, hhi⟩ | rfl | rfl
  · exact ⟨le_trans (by decide) (hle hlo), le_trans (hle hhi) (by decide)⟩
  · exact ⟨le_trans (by decide) (hle hlo), le_trans (hle hhi) (by decide)⟩
  · decide
  · exact ⟨le_trans (by decide) (hle hlo), le_trans (hle hhi) (by decide)⟩
  · decide
  · decide

theorem BareRest.not_whiteSpace {c : Char} (h : BareRest c) : ¬ WhiteSpace c := by
  have hcode := h.code
  intro hw
  simp only [WhiteSpace, whiteSpaceRanges, List.mem_cons, List.not_mem_nil, or_false,
    exists_eq_or_imp, exists_eq_left] at hw
  omega

/-- A text in front of which a bare name ends. -/
def EndsBare (s : List Char) : Prop := ∀ c ∈ s.head?, ¬ BareRest c

/-- No spelling starts with white space. -/
theorem Spelling.flush {text name s : List Char} (h : Spelling text name) :
    Flush (text ++ s) := by
  cases h with
  | bare hc hcs =>
    intro d hd
    obtain rfl := Option.some.inj hd
    exact BareRest.not_whiteSpace (.inl hc)
  | quoted h =>
    intro d hd
    obtain rfl := Option.some.inj hd
    rw [← isWhiteSpace_iff]
    decide

theorem readQuoted_append {text name : List Char} (h : QuotedBody text name) (rest : List Char) :
    readQuoted (text ++ '"' :: rest) = some (name, rest) := by
  induction h with
  | nil => rfl
  | @char c text name hq hb _ ih =>
    rw [List.cons_append, readQuoted]
    · simp [hb, ih]
    · exact hq
    · intro d r he
      exact absurd he hb
  | @pair c text name hc _ ih => simp [readQuoted, hc, ih]

theorem exists_quotedBody_of_readQuoted {s name rest : List Char}
    (h : readQuoted s = some (name, rest)) :
    ∃ text, s = text ++ '"' :: rest ∧ QuotedBody text name := by
  fun_induction readQuoted s generalizing name rest with
  | case1 => simp at h
  | case2 r =>
    cases h
    exact ⟨[], rfl, .nil⟩
  | case3 => simp at h
  | case4 c r hc ih =>
    obtain ⟨⟨n, r'⟩, hr, he⟩ := Option.map_eq_some_iff.1 h
    cases he
    obtain ⟨text, rfl, hbody⟩ := ih hr
    exact ⟨_, rfl, hbody.pair hc⟩
  | case5 => simp at h
  | case6 c r hq _ hb ih =>
    obtain ⟨⟨n, r'⟩, hr, he⟩ := Option.map_eq_some_iff.1 h
    cases he
    obtain ⟨text, rfl, hbody⟩ := ih hr
    exact ⟨_, rfl, hbody.char hq hb⟩

/-- A quoted name is read up to its closing mark, whatever follows. -/
theorem read_quoted_append {text name : List Char} (h : QuotedBody text name) (rest : List Char) :
    read ('"' :: (text ++ ['"']) ++ rest) = some (name, rest) := by
  have hq : isBareStart '"' ≠ true := by decide
  rw [List.cons_append, read, if_neg hq, if_pos rfl, List.append_assoc, List.singleton_append]
  exact readQuoted_append h rest

/-- The reader takes a whole spelling and decodes it, unless a bare name goes on after it. -/
theorem read_append {text name rest : List Char} (h : Spelling text name) (hr : EndsBare rest) :
    read (text ++ rest) = some (name, rest) := by
  cases h with
  | @bare c cs hc hcs =>
    have hall : ∀ d ∈ cs, isBareRest d = true := fun d hd => isBareRest_iff.2 (hcs d hd)
    have hstop : rest.takeWhile isBareRest = [] ∧ rest.dropWhile isBareRest = rest := by
      cases rest with
      | nil => exact ⟨rfl, rfl⟩
      | cons d rest =>
        have hd : isBareRest d ≠ true := fun h => hr d rfl (isBareRest_iff.1 h)
        simp [hd]
    rw [List.cons_append, read, if_pos (isBareStart_iff.2 hc),
      List.takeWhile_append_of_pos hall, List.dropWhile_append_of_pos hall, hstop.1, hstop.2,
      List.append_nil]
  | quoted h => exact read_quoted_append h rest

/-- What the reader takes off a text is a spelling of the name that it returns. -/
theorem exists_spelling_of_read {s name rest : List Char} (h : read s = some (name, rest)) :
    ∃ text, s = text ++ rest ∧ Spelling text name := by
  cases s with
  | nil => simp [read] at h
  | cons c cs =>
    rw [read] at h
    split at h
    · rename_i hc
      cases h
      refine ⟨c :: cs.takeWhile isBareRest, by simp, .bare (isBareStart_iff.1 hc) ?_⟩
      intro d hd
      exact isBareRest_iff.1 (List.mem_takeWhile_imp hd)
    · split at h
      · rename_i hc
        subst hc
        obtain ⟨text, rfl, hbody⟩ := exists_quotedBody_of_readQuoted h
        exact ⟨_, by simp, .quoted hbody⟩
      · simp at h

theorem quotedBody_escape (name : List Char) : QuotedBody (name.flatMap escape) name := by
  induction name with
  | nil => exact .nil
  | cons c name ih =>
    rw [List.flatMap_cons, escape]
    split
    · rename_i hc
      refine ih.pair ?_
      rcases hc with rfl | rfl <;> decide
    · rename_i hc
      rw [not_or] at hc
      exact ih.char hc.2 hc.1

/-- The written form of a name is a spelling of it. -/
theorem spelling_written (name : List Char) : Spelling (written name) name := by
  unfold written
  split
  · rename_i h
    cases name with
    | nil => simp [isBare] at h
    | cons c cs =>
      rw [isBare, Bool.and_eq_true, List.all_eq_true] at h
      exact .bare (isBareStart_iff.1 h.1) fun d hd => isBareRest_iff.1 (h.2 d hd)
  · exact .quoted (quotedBody_escape name)

end Name

end FeatureLattice
