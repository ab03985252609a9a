import FeatureLattice.Context.Construction
import FeatureLattice.Proofs.Meaning
import FeatureLattice.Proofs.NameGrammar

/-!
# The grammar of written contexts

The notation is given as a grammar, each text with the context it denotes: a concrete context is
known by the names that are listed, in any order and number. The reader never goes back on a choice.
It still finds every derivation: white space and bare names are taken as far as they go, and
nothing that can follow them starts in the same way; a comma is looked at once and is either in
front of a name or the last one.
-/
namespace FeatureLattice.Context
open Text

/-- What follows a name inside braces, with the closing brace: further names, each behind a comma,
and perhaps one more comma. -/
inductive ListingEnd : List Char → List String → Prop
  | close {w : List Char} : Blank w → ListingEnd (w ++ ['}']) []
  | comma {w w' : List Char} : Blank w → Blank w' → ListingEnd (w ++ ',' :: (w' ++ ['}'])) []
  | name {w w' text name rest : List Char} {names : List String} : Blank w → Blank w' →
      Name.Spelling text name → ListingEnd rest names →
      ListingEnd (w ++ ',' :: (w' ++ (text ++ rest))) (String.ofList name :: names)

/-- A star or a list of names in braces, with the context it denotes. -/
inductive Term : List Char → Context → Prop
  | star : Term ['*'] universal
  | braces {w : List Char} {s : NameSet} : Blank w → (∀ x, ¬ x ∈ s) →
      Term ('{' :: (w ++ ['}'])) (concrete s)
  | listing {w text name rest : List Char} {names : List String} {s : NameSet} : Blank w →
      Name.Spelling text name → ListingEnd rest names →
      (∀ x, x ∈ s ↔ x ∈ String.ofList name :: names) →
      Term ('{' :: (w ++ (text ++ rest))) (concrete s)

/-- A whole text denotes a context: a term with white space around it. -/
def Denotes (text : List Char) (c : Context) : Prop :=
  ∃ w term w', text = w ++ (term ++ w') ∧ Blank w ∧ Term term c ∧ Blank w'

/-- A character that is neither white space nor part of a bare name. -/
def Separates (c : Char) : Prop := ¬ WhiteSpace c ∧ ¬ Name.BareRest c

theorem separates_comma : Separates ',' := by
  rw [Separates, ← isWhiteSpace_iff, ← Name.isBareRest_iff]
  decide

theorem separates_brace : Separates '}' := by
  rw [Separates, ← isWhiteSpace_iff, ← Name.isBareRest_iff]
  decide

theorem Separates.flush {c : Char} (h : Separates c) (s : List Char) : Flush (c :: s) := by
  intro d hd
  obtain rfl := Option.some.inj hd
  exact h.1

/-- A bare name ends in front of white space and a separator. -/
theorem Separates.endsBare {c : Char} (h : Separates c) {w : List Char} (hw : Blank w)
    (s : List Char) : Name.EndsBare (w ++ c :: s) := by
  intro d hd hr
  cases w with
  | nil =>
    obtain rfl := Option.some.inj hd
    exact h.2 hr
  | cons e w =>
    obtain rfl := Option.some.inj hd
    exact hr.not_whiteSpace (hw e List.mem_cons_self)

theorem ListingEnd.endsBare {r : List Char} {names : List String} (h : ListingEnd r names)
    (rest : List Char) : Name.EndsBare (r ++ rest) := by
  cases h with
  | close hw =>
    rw [List.append_assoc]
    exact separates_brace.endsBare hw _
  | comma hw hw' =>
    rw [List.append_assoc]
    exact separates_comma.endsBare hw _
  | name hw hw' _ _ =>
    rw [List.append_assoc]
    exact separates_comma.endsBare hw _

/-- Behind a comma the reader looks for a name once. -/
theorem readMore_of_comma {s r : List Char} (hs : skipWhiteSpace s = ',' :: r) :
    readMore s = match Name.read (skipWhiteSpace r) with
      | some (name, rest) => (readMore rest).cons name (skipWhiteSpace r)
      | none => ⟨[], skipWhiteSpace r, [(skipWhiteSpace r).length]⟩ := by
  -- The match of the definition carries its equation for the measure, so it is split by hand.
  rw [readMore]
  split
  · rename_i r' hs'
    obtain rfl : r = r' := (List.cons.inj (hs.symm.trans hs')).2
    split <;> rename_i hr <;> rw [hr]
  · rename_i hne
    exact absurd hs (hne r)

theorem readMore_of_no_comma {s : List Char} (hs : ∀ r, skipWhiteSpace s ≠ ',' :: r) :
    readMore s = ⟨[], skipWhiteSpace s, []⟩ := by
  rw [readMore]
  split
  · rename_i r hr
    exact absurd hr (hs r)
  · rfl

@[simp] theorem names_cons (name due : List Char) (l : Listing) :
    (l.cons name due).names = String.ofList name :: l.names := rfl

@[simp] theorem rest_cons (name due : List Char) (l : Listing) :
    (l.cons name due).rest = l.rest := rfl

/-- The reader passes over everything that can follow a name, up to the closing brace. -/
theorem readMore_append {r : List Char} {names : List String} (h : ListingEnd r names)
    (rest : List Char) :
    (readMore (r ++ rest)).names = names ∧ (readMore (r ++ rest)).rest = '}' :: rest := by
  induction h with
  | @close w hw =>
    have hs : skipWhiteSpace (w ++ ['}'] ++ rest) = '}' :: rest := by
      rw [List.append_assoc, List.singleton_append]
      exact skipWhiteSpace_append hw (separates_brace.flush rest)
    have hne : ∀ r, skipWhiteSpace (w ++ ['}'] ++ rest) ≠ ',' :: r := by
      intro r
      rw [hs]
      simp
    rw [readMore_of_no_comma hne, hs]
    exact ⟨rfl, rfl⟩
  | @comma w w' hw hw' =>
    have hs : skipWhiteSpace (w ++ ',' :: (w' ++ ['}']) ++ rest) = ',' :: (w' ++ '}' :: rest) := by
      rw [List.append_assoc, List.cons_append, List.append_assoc, List.singleton_append]
      exact skipWhiteSpace_append hw (separates_comma.flush _)
    have hr : skipWhiteSpace (w' ++ '}' :: rest) = '}' :: rest :=
      skipWhiteSpace_append hw' (separates_brace.flush rest)
    have hnone : Name.read ('}' :: rest) = none := rfl
    rw [readMore_of_comma hs, hr, hnone]
    exact ⟨rfl, rfl⟩
  | @name w w' text name r names hw hw' hname hend ih =>
    have hs : skipWhiteSpace (w ++ ',' :: (w' ++ (text ++ r)) ++ rest) =
        ',' :: (w' ++ (text ++ (r ++ rest))) := by
      simp only [List.append_assoc, List.cons_append]
      exact skipWhiteSpace_append hw (separates_comma.flush _)
    have hr : skipWhiteSpace (w' ++ (text ++ (r ++ rest))) = text ++ (r ++ rest) :=
      skipWhiteSpace_append hw' hname.flush
    rw [readMore_of_comma hs, hr, Name.read_append hname (hend.endsBare rest)]
    exact ⟨congrArg _ ih.1, ih.2⟩

/-- What the reader passes over up to a closing brace can follow a name. -/
theorem exists_listingEnd_of_readMore {s rest : List Char} (h : (readMore s).rest = '}' :: rest) :
    ∃ r, s = r ++ rest ∧ ListingEnd r (readMore s).names := by
  obtain ⟨⟨w, hw, hs⟩, -⟩ := skipWhiteSpace_split s
  by_cases hcomma : ∃ r, skipWhiteSpace s = ',' :: r
  · obtain ⟨r, hr⟩ := hcomma
    obtain ⟨⟨w', hw', hr'⟩, -⟩ := skipWhiteSpace_split r
    cases hread : Name.read (skipWhiteSpace r) with
    | none =>
      rw [readMore_of_comma hr, hread] at h ⊢
      have hrest : skipWhiteSpace r = '}' :: rest := h
      refine ⟨w ++ ',' :: (w' ++ ['}']), ?_, .comma hw hw'⟩
      rw [hs, hr, hr', hrest]
      simp
    | some found =>
      obtain ⟨name, more⟩ := found
      -- The induction is on the length of the text: a comma and a name were taken off it.
      have hless : more.length < s.length := by
        have hname := Name.length_lt_of_read hread
        have hskip := length_skipWhiteSpace_le r
        have hlen := length_skipWhiteSpace_le s
        rw [hr, List.length_cons] at hlen
        omega
      rw [readMore_of_comma hr, hread] at h ⊢
      obtain ⟨text, htext, hspell⟩ := Name.exists_spelling_of_read hread
      obtain ⟨r', rfl, hend⟩ := exists_listingEnd_of_readMore h
      refine ⟨w ++ ',' :: (w' ++ (text ++ r')), ?_, .name hw hw' hspell hend⟩
      rw [hs, hr, hr', htext]
      simp
  · rw [not_exists] at hcomma
    rw [readMore_of_no_comma hcomma] at h ⊢
    have hrest : skipWhiteSpace s = '}' :: rest := h
    refine ⟨w ++ ['}'], ?_, .close hw⟩
    rw [hs, hrest]
    simp
termination_by s.length

theorem readListing_of_name {s name rest : List Char}
    (h : Name.read (skipWhiteSpace s) = some (name, rest)) :
    readListing s = (readMore rest).cons name (skipWhiteSpace s) := by
  simp [readListing, h]

theorem readListing_of_no_name {s : List Char} (h : Name.read (skipWhiteSpace s) = none) :
    (readListing s).names = [] ∧ (readListing s).rest = skipWhiteSpace s := by
  simp [readListing, h]

theorem readTerm_of_listing {s rest : List Char} (h : (readListing s).rest = '}' :: rest) :
    readTerm ('{' :: s) = .ok (of (readListing s).names, rest) := by
  simp [readTerm, h]

/-- A concrete context is that of a list of names if the names are its members. -/
theorem of_eq_concrete {s : NameSet} {names : List String} (h : ∀ x, x ∈ s ↔ x ∈ names) :
    of names = concrete s :=
  congrArg concrete (NameSet.ext_mem fun x => by rw [NameSet.mem_ofList, h])

/-- The reader takes a whole term off a text and returns the context it denotes. -/
theorem readTerm_append {term : List Char} {c : Context} (h : Term term c) (rest : List Char) :
    readTerm (term ++ rest) = .ok (c, rest) := by
  cases h with
  | star => rfl
  | @braces w s hw hs =>
    have hskip : skipWhiteSpace (w ++ '}' :: rest) = '}' :: rest :=
      skipWhiteSpace_append hw (separates_brace.flush rest)
    obtain ⟨hnames, hrest⟩ := readListing_of_no_name (s := w ++ '}' :: rest) (by rw [hskip]; rfl)
    have hnone : ∀ x, x ∈ s ↔ x ∈ [] := fun x => iff_of_false (hs x) List.not_mem_nil
    rw [List.cons_append, List.append_assoc, List.singleton_append,
      readTerm_of_listing (hrest.trans hskip), hnames, of_eq_concrete hnone]
  | @listing w text name r names s hw hname hend hs =>
    have hskip : skipWhiteSpace (w ++ (text ++ (r ++ rest))) = text ++ (r ++ rest) :=
      skipWhiteSpace_append hw hname.flush
    have hread : Name.read (skipWhiteSpace (w ++ (text ++ (r ++ rest)))) =
        some (name, r ++ rest) := by
      rw [hskip]
      exact Name.read_append hname (hend.endsBare rest)
    obtain ⟨hnames, hrest⟩ := readMore_append hend rest
    have hlist := readListing_of_name hread
    rw [List.cons_append, List.append_assoc, List.append_assoc,
      readTerm_of_listing (by rw [hlist, rest_cons, hrest]), hlist, names_cons, hnames,
      of_eq_concrete hs]

/-- What the reader takes off a text is a term for the context that it returns. -/
theorem exists_term_of_readTerm {s rest : List Char} {c : Context}
    (h : readTerm s = .ok (c, rest)) : ∃ term, s = term ++ rest ∧ Term term c := by
  unfold readTerm at h
  split at h
  · cases h
    exact ⟨['*'], rfl, .star⟩
  · rename_i s
    dsimp only at h
    split at h
    · rename_i rest' hrest
      cases h
      obtain ⟨⟨w, hw, hs⟩, -⟩ := skipWhiteSpace_split s
      cases hread : Name.read (skipWhiteSpace s) with
      | none =>
        obtain ⟨hnames, hskip⟩ := readListing_of_no_name hread
        rw [hskip] at hrest
        refine ⟨'{' :: (w ++ ['}']), ?_, ?_⟩
        · rw [hrest] at hs
          simpa using hs
        · rw [hnames]
          exact .braces hw fun x => by simp
      | some found =>
        obtain ⟨name, more⟩ := found
        have hlist := readListing_of_name hread
        rw [hlist, rest_cons] at hrest
        obtain ⟨text, htext, hspell⟩ := Name.exists_spelling_of_read hread
        obtain ⟨r, rfl, hend⟩ := exists_listingEnd_of_readMore hrest
        refine ⟨'{' :: (w ++ (text ++ r)), ?_, ?_⟩
        · rw [htext] at hs
          simpa using hs
        · rw [hlist, names_cons]
          exact .listing hw hspell hend fun x => NameSet.mem_ofList
    · cases h
  · cases h

theorem Term.flush {term : List Char} {c : Context} (h : Term term c) (s : List Char) :
    Flush (term ++ s) := by
  have hstar : ¬ WhiteSpace '*' := by
    rw [← isWhiteSpace_iff]
    decide
  have hbrace : ¬ WhiteSpace '{' := by
    rw [← isWhiteSpace_iff]
    decide
  cases h <;> intro c hc <;> obtain rfl := Option.some.inj hc <;> assumption

/-- The reader accepts a text with a context exactly if the text denotes it. -/
theorem readAll_eq_ok_iff {s : List Char} {c : Context} : readAll s = .ok c ↔ Denotes s c := by
  constructor
  · intro h
    unfold readAll at h
    obtain ⟨⟨w, hw, hs⟩, -⟩ := skipWhiteSpace_split s
    split at h
    · cases h
    · rename_i d rest hterm
      obtain ⟨term, hsplit, hd⟩ := exists_term_of_readTerm hterm
      obtain ⟨⟨w', hw', hrest⟩, -⟩ := skipWhiteSpace_split rest
      split at h
      · rename_i hend
        cases h
        rw [hend, List.append_nil] at hrest
        refine ⟨w, term, w', ?_, hw, hd, hw'⟩
        rw [← hrest, ← hsplit, ← hs]
      · cases h
  · rintro ⟨w, term, w', rfl, hw, hterm, hw'⟩
    have hend : skipWhiteSpace w' = [] := by
      simpa using skipWhiteSpace_append (s := []) hw' (by simp [Flush])
    rw [readAll, skipWhiteSpace_append hw (hterm.flush w'), readTerm_append hterm]
    simp [hend]

/-- Reading succeeds exactly on the texts of the grammar, with the context that the text denotes.
Any other text is reported as malformed. -/
theorem ofText_iff_denotes (text : String) :
    (∀ c, ofText text = .ok c ↔ Denotes text.toList c) ∧
    ((∃ position hint, ofText text = .error (.reported
        (.malformed ("malformed feature context " ++ quote text) text position hint))) ↔
      ¬ ∃ c, Denotes text.toList c) := by
  simp only [← readAll_eq_ok_iff, ofText, read]
  cases readAll text.toList with
  | ok c => simp
  | error left => simp [Rejection.toError]

end FeatureLattice.Context
