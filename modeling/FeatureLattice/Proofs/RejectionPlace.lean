import FeatureLattice.Proofs.DueNames

/-!
# Where reading fails

A rejected text fails at one of three kinds of place: where a star or a brace was due, behind a
whole context with more text after it, or inside braces that are not closed in time. The text before
that place is still sound: it can be completed so that it is read.
-/
namespace FeatureLattice.Context
open Text

/-- The position at which a rejected text fails. -/
structure FailsAt (s : List Char) (p : ℕ) : Prop where
  /-- No star and no brace stands behind the leading white space. -/
  opening : ∀ w rest, s = w ++ rest → Blank w → Flush rest →
    (∀ c ∈ rest.head?, c ≠ '*' ∧ c ≠ '{') → p = w.length
  /-- A context is written there, and more text follows. -/
  trailing : ∀ w term rest c, s = w ++ (term ++ rest) → Blank w → Term term c →
    IsGreatest {n | n ≤ s.length ∧ ∃ d, Denotes (s.take n) d} p
  /-- A brace stands there which opens no context. -/
  unclosed : ∀ w rest, s = w ++ '{' :: rest → Blank w →
    (¬ ∃ term c, Term term c ∧ term <+: '{' :: rest) →
    IsGreatest {q | q = w.length ∨ NoBareNameAt s q} p

theorem readTerm_of_no_opening {s : List Char} (h : ∀ c ∈ s.head?, c ≠ '*' ∧ c ≠ '{') :
    readTerm s = .error s.length := by
  cases s with
  | nil => rfl
  | cons c s =>
    obtain ⟨hstar, hbrace⟩ := h c rfl
    rw [readTerm]
    · exact fun rest he => hstar (List.cons.inj he).1
    · exact fun rest he => hbrace (List.cons.inj he).1

/-- A brace that opens no context fails with what its listing remembers. -/
theorem readTerm_of_unclosed {body : List Char}
    (h : ¬ ∃ term c, Term term c ∧ term <+: '{' :: body) :
    readTerm ('{' :: body) =
      .error ((readListing body).marks.foldl min (body.length + 1)) := by
  have hrest (rest : List Char) : (readListing body).rest ≠ '}' :: rest := by
    intro hrest
    obtain ⟨term, hsplit, hterm⟩ := exists_term_of_readTerm (readTerm_of_listing hrest)
    exact h ⟨term, _, hterm, rest, hsplit.symm⟩
  rw [readTerm]
  split
  · rename_i rest heq
    exact absurd heq (hrest rest)
  · rfl

/-- A context in front of a text takes nothing from it but white space. -/
theorem readAll_append {w term rest : List Char} {c : Context} (hw : Blank w) (h : Term term c) :
    readAll (w ++ (term ++ rest)) =
      if skipWhiteSpace rest = [] then .ok c else .error (skipWhiteSpace rest).length := by
  rw [readAll, skipWhiteSpace_append hw (h.flush rest), readTerm_append h]
  dsimp only
  split
  · rename_i hend
    rw [if_pos hend]
  · rename_i hne
    rw [if_neg (by simpa using hne)]

/-- Two readings of one text as a context and more text take the same off it. -/
theorem rest_unique {w w' term term' rest rest' : List Char} {c d : Context} (hw : Blank w)
    (hw' : Blank w') (h : Term term c) (h' : Term term' d)
    (he : w ++ (term ++ rest) = w' ++ (term' ++ rest')) : rest = rest' := by
  have hskip : term ++ rest = term' ++ rest' := by
    rw [← skipWhiteSpace_append hw (h.flush rest), he, skipWhiteSpace_append hw' (h'.flush rest')]
  have hread := readTerm_append h rest
  rw [hskip, readTerm_append h' rest'] at hread
  exact (Prod.mk.inj (Except.ok.inj hread)).2.symm

/-- The longest part of a text that is read ends with the white space behind the context. -/
theorem isGreatest_trailing {w term rest : List Char} {c : Context} (hw : Blank w)
    (h : Term term c) :
    IsGreatest {n | n ≤ (w ++ (term ++ rest)).length ∧
        ∃ d, Denotes ((w ++ (term ++ rest)).take n) d}
      ((w ++ (term ++ rest)).length - (skipWhiteSpace rest).length) := by
  obtain ⟨⟨w', hw', hrest⟩, -⟩ := skipWhiteSpace_split rest
  constructor
  · refine ⟨Nat.sub_le _ _, c, w, term, w', ?_, hw, h, hw'⟩
    have hsplit : w ++ (term ++ rest) = w ++ (term ++ w') ++ skipWhiteSpace rest := by
      rw [List.append_assoc, List.append_assoc, ← hrest]
    have hlen : (w ++ (term ++ rest)).length - (skipWhiteSpace rest).length =
        (w ++ (term ++ w')).length := by
      rw [hsplit, List.length_append, Nat.add_sub_cancel]
    rw [hlen, hsplit, List.take_left]
  · rintro n ⟨hn, d, w₁, term₁, w₁', htake, hw₁, hterm₁, hw₁'⟩
    generalize hs : w ++ (term ++ rest) = s at hn htake ⊢
    have hsplit : s = w₁ ++ (term₁ ++ (w₁' ++ s.drop n)) := by
      rw [← List.append_assoc term₁, ← List.append_assoc, ← htake, List.take_append_drop]
    have heq : rest = w₁' ++ s.drop n := rest_unique hw hw₁ h hterm₁ (hs.trans hsplit)
    have hle := length_skipWhiteSpace_le (s.drop n)
    rw [heq, skipWhiteSpace_blank_append hw₁']
    rw [List.length_drop] at hle
    omega

/-- A rejected text fails at the position that its kind of failure gives. -/
theorem failsAt_of_readAll {s : List Char} {left : ℕ} (h : readAll s = .error left) :
    FailsAt s (s.length - left) where
  opening w rest hs hw hrest hno := by
    rw [hs, readAll, skipWhiteSpace_append hw hrest, readTerm_of_no_opening hno] at h
    obtain rfl := Except.error.inj h
    rw [hs, List.length_append, Nat.add_sub_cancel]
  trailing w term rest c hs hw hterm := by
    rw [hs, readAll_append hw hterm] at h
    split at h
    · cases h
    · obtain rfl := Except.error.inj h
      rw [hs]
      exact isGreatest_trailing hw hterm
  unclosed w rest hs hw hno := by
    rw [hs, readAll, skipWhiteSpace_append hw (flush_brace rest), readTerm_of_unclosed hno] at h
    obtain rfl := Except.error.inj h
    rw [hs]
    exact isGreatest_unclosed hw rest

/-- The kinds of failure exclude each other and leave nothing out, so there is one position. -/
theorem FailsAt.unique {s : List Char} {p q : ℕ} (hp : FailsAt s p) (hq : FailsAt s q) :
    p = q := by
  obtain ⟨⟨w, hw, hs⟩, hflush⟩ := skipWhiteSpace_split s
  generalize skipWhiteSpace s = rest at hs hflush
  by_cases hterm : ∃ term c, Term term c ∧ term <+: rest
  · obtain ⟨term, c, hterm, more, rfl⟩ := hterm
    exact (hp.trailing w term more c hs hw hterm).unique (hq.trailing w term more c hs hw hterm)
  · by_cases hbrace : ∃ body, rest = '{' :: body
    · obtain ⟨body, rfl⟩ := hbrace
      exact (hp.unclosed w body hs hw hterm).unique (hq.unclosed w body hs hw hterm)
    · have hno : ∀ c ∈ rest.head?, c ≠ '*' ∧ c ≠ '{' := by
        intro c hc
        obtain ⟨more, rfl⟩ := List.head?_eq_some_iff.1 (Option.mem_def.1 hc)
        constructor
        · rintro rfl
          exact hterm ⟨['*'], universal, .star, more, rfl⟩
        · rintro rfl
          exact hbrace ⟨more, rfl⟩
      exact (hp.opening w rest hs hw hflush hno).trans (hq.opening w rest hs hw hflush hno).symm

/-- The report of a text that is not read, with the place of its failure. -/
theorem ofText_of_readAll {text : String} {left : ℕ} (h : readAll text.toList = .error left) :
    ofText text = .error (.reported (.malformed ("malformed feature context " ++ quote text) text
      (text.toList.length - left : ℕ) (hintFor text.toList).text)) := by
  simp [ofText, read, h, Rejection.toError]

theorem rejected_iff {text : String} :
    (¬ ∃ c, ofText text = .ok c) ↔ ∃ left, readAll text.toList = .error left := by
  cases hread : readAll text.toList with
  | ok c => simp [ofText, read, hread]
  | error left => simp [ofText, read, hread]

/-- **A text that is not read is reported at the one position where it fails.** It lies within the
text: where a star or a brace was due; at the end of the longest part that is read; or, behind a
brace that opens no context, at the furthest of the brace and the places where a name was due and
no bare name starts. -/
theorem ofText_error_position {text : String} (h : ¬ ∃ c, ofText text = .ok c) :
    ∃ (p : ℕ) (hint : String), ofText text = .error (.reported
        (.malformed ("malformed feature context " ++ quote text) text p hint)) ∧
      p ≤ text.length ∧ ∀ q, FailsAt text.toList q ↔ q = p := by
  obtain ⟨left, hleft⟩ := rejected_iff.1 h
  have hfails := failsAt_of_readAll hleft
  refine ⟨_, _, ofText_of_readAll hleft, ?_, fun q => ⟨fun hq => hq.unique hfails, ?_⟩⟩
  · rw [← String.length_toList]
    exact Nat.sub_le _ _
  · rintro rfl
    exact hfails

/-- A quoted name is due at 4 and found. What is missing behind it does not move the position. -/
theorem ofText_error_position_quoted :
    (¬ ∃ c, ofText "\x7ba, \"b\" c\x7d" = .ok c) ∧
      ∀ q, FailsAt "\x7ba, \"b\" c\x7d".toList q ↔ q = 4 := by
  have hread : readAll "\x7ba, \"b\" c\x7d".toList = .error 6 := by decide +kernel
  have hreport := ofText_of_readAll hread
  have hrejected : ¬ ∃ c, ofText "\x7ba, \"b\" c\x7d" = .ok c := rejected_iff.2 ⟨6, hread⟩
  obtain ⟨p, hint, heq, -, hfails⟩ := ofText_error_position hrejected
  rw [hreport] at heq
  have hlen : "\x7ba, \"b\" c\x7d".toList.length = 10 := by decide +kernel
  have hp : p = 4 := by
    injections
    omega
  exact ⟨hrejected, fun q => by rw [hfails, hp]⟩

/-- A text that starts with a whole context, white space apart. -/
def StartsWithTerm (s : List Char) : Prop :=
  ∃ w term rest c, s = w ++ (term ++ rest) ∧ Blank w ∧ Term term c

/-- A text that is read. -/
def IsRead (s : List Char) : Prop := ∃ c, ofText (String.ofList s) = .ok c

theorem isRead_iff {s : List Char} : IsRead s ↔ ∃ c, Denotes s c := by
  simp only [IsRead, (ofText_iff_denotes (String.ofList s)).1, String.toList_ofList]

/-- Behind a whole context, what stands before the place of the failure is read. -/
theorem FailsAt.isRead_take {s : List Char} {p : ℕ} (h : FailsAt s p) (hterm : StartsWithTerm s) :
    IsRead (s.take p) := by
  obtain ⟨w, term, rest, c, hs, hw, hterm⟩ := hterm
  exact isRead_iff.2 (h.trailing w term rest c hs hw hterm).1.2

/-- Without a whole context, a text fails where one was due or where a name was due. -/
theorem FailsAt.place {s w rest : List Char} {p : ℕ} (h : FailsAt s p)
    (hterm : ¬ StartsWithTerm s) (hs : s = w ++ rest) (hw : Blank w) (hrest : Flush rest) :
    p = w.length ∨ NoBareNameAt s p := by
  by_cases hno : ∀ c ∈ rest.head?, c ≠ '*' ∧ c ≠ '{'
  · exact .inl (h.opening w rest hs hw hrest hno)
  · push Not at hno
    obtain ⟨c, hc, hopen⟩ := hno
    obtain ⟨body, rfl⟩ := List.head?_eq_some_iff.1 (Option.mem_def.1 hc)
    have hstar : c ≠ '*' := by
      rintro rfl
      exact hterm ⟨w, ['*'], body, universal, hs, hw, .star⟩
    obtain rfl := hopen hstar
    refine (h.unclosed w body hs hw ?_).1
    rintro ⟨term, c, ht, more, hmore⟩
    exact hterm ⟨w, term, more, c, by rw [hs, hmore], hw, ht⟩

theorem isRead_star {s w rest : List Char} (hs : s = w ++ rest) (hw : Blank w) :
    IsRead (s.take w.length ++ ['*']) := by
  rw [hs, List.take_left]
  exact isRead_iff.2 ⟨universal, w, ['*'], [], rfl, hw, .star, by simp [Blank]⟩

theorem NoBareNameAt.isRead_close {s : List Char} {p : ℕ} (h : NoBareNameAt s p) :
    IsRead (s.take p ++ ['}']) := by
  obtain ⟨before, due, rfl, rfl, hdue, -⟩ := h
  rw [List.take_left]
  exact isRead_iff.2 hdue.exists_denotes_close

/-- **The text before the reported position is sound.** It goes on to a text that is read: behind a
whole context it is read as it stands; where a context was due, a star completes it; further inside
braces, a closing brace does. -/
theorem ofText_take_position {text : String} (h : ¬ ∃ c, ofText text = .ok c) :
    ∃ (p : ℕ) (hint : String), ofText text = .error (.reported
        (.malformed ("malformed feature context " ++ quote text) text p hint)) ∧
      (∃ more, IsRead (text.toList.take p ++ more)) ∧
      (StartsWithTerm text.toList → IsRead (text.toList.take p)) ∧
      (¬ StartsWithTerm text.toList → ∀ w rest, text.toList = w ++ rest → Blank w → Flush rest →
        ((∀ c ∈ rest.head?, c ≠ '*' ∧ c ≠ '{') ∨ p = w.length →
          IsRead (text.toList.take p ++ ['*'])) ∧
        (w.length < p → IsRead (text.toList.take p ++ ['}']))) := by
  obtain ⟨left, hleft⟩ := rejected_iff.1 h
  have hfails := failsAt_of_readAll hleft
  refine ⟨_, _, ofText_of_readAll hleft, ?_, hfails.isRead_take, ?_⟩
  · by_cases hterm : StartsWithTerm text.toList
    · exact ⟨[], by simpa using hfails.isRead_take hterm⟩
    · obtain ⟨⟨w, hw, hs⟩, hflush⟩ := skipWhiteSpace_split text.toList
      rcases hfails.place hterm hs hw hflush with hp | hdue
      · exact ⟨['*'], by rw [hp]; exact isRead_star hs hw⟩
      · exact ⟨['}'], hdue.isRead_close⟩
  · intro hterm w rest hs hw hrest
    constructor
    · intro hopen
      have hp : text.toList.length - left = w.length := by
        rcases hopen with hno | hp
        · exact hfails.opening w rest hs hw hrest hno
        · exact hp
      rw [hp]
      exact isRead_star hs hw
    · intro hlt
      rcases hfails.place hterm hs hw hrest with hp | hdue
      · omega
      · exact hdue.isRead_close

/-- An open quoted name behind a comma. The error is at the position of its quotation mark, behind
the brace, and the text before that position is read once the brace is closed. -/
theorem ofText_take_position_open_quote :
    (¬ ∃ c, ofText "\x7ba, \"b" = .ok c) ∧ ¬ StartsWithTerm "\x7ba, \"b".toList ∧
    (∃ hint, ofText "\x7ba, \"b" = .error (.reported
      (.malformed ("malformed feature context " ++ quote "\x7ba, \"b") "\x7ba, \"b" 4 hint))) ∧
    IsRead ("\x7ba, \"b".toList.take 4 ++ ['}']) ∧ IsRead ("\x7ba, ".toList ++ ['}']) := by
  have hread : readAll "\x7ba, \"b".toList = .error 2 := by decide +kernel
  have hrejected : ¬ ∃ c, ofText "\x7ba, \"b" = .ok c := rejected_iff.2 ⟨2, hread⟩
  have hterm : ¬ StartsWithTerm "\x7ba, \"b".toList := by
    rintro ⟨w, term, rest, c, hs, hw, hc⟩
    have herror : readTerm (skipWhiteSpace "\x7ba, \"b".toList) = .error 2 := by decide +kernel
    rw [hs, skipWhiteSpace_append hw (hc.flush rest), readTerm_append hc] at herror
    cases herror
  obtain ⟨p, hint, heq, -, -, hclosed⟩ := ofText_take_position hrejected
  have hp : p = 4 := by
    have hlen : "\x7ba, \"b".toList.length = 6 := by decide +kernel
    have hreported := heq
    rw [ofText_of_readAll hread] at hreported
    injections
    omega
  subst hp
  have hbrace : IsRead ("\x7ba, \"b".toList.take 4 ++ ['}']) :=
    (hclosed hterm [] "\x7ba, \"b".toList rfl (by simp [Blank]) (flush_brace _)).2 (by simp)
  have hprefix : "\x7ba, \"b".toList.take 4 = "\x7ba, ".toList := by decide +kernel
  exact ⟨hrejected, hterm, ⟨hint, heq⟩, hbrace, hprefix ▸ hbrace⟩

end FeatureLattice.Context
