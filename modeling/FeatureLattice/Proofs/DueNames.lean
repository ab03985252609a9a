import FeatureLattice.Proofs.ContextGrammar
import Mathlib.Order.Bounds.Basic

/-!
# Places where a name is due

The places inside braces where a name is due are described along the grammar, from the opening
brace on. The reader remembers those where no bare name stands, and no others, so the furthest of
them is where it gives up on braces that are not closed in time. Up to such a place nothing is
wrong with the text: a closing brace there completes it.
-/
namespace FeatureLattice.Context
open Text

/-- A name is due between two parts of a text: behind the opening brace and white space, unless the
text ends there, and behind a comma that follows a name, where one was due, and white space. -/
inductive NameDue : List Char → List Char → Prop
  | first {w w' due : List Char} : Blank w → Blank w' → Flush due → due ≠ [] →
      NameDue (w ++ '{' :: w') due
  | next {before text name w w' due : List Char} :
      NameDue before (text ++ (w ++ ',' :: (w' ++ due))) → Name.Spelling text name →
      Blank w → Blank w' → Flush due → NameDue (before ++ (text ++ (w ++ ',' :: w'))) due

/-- A name is due at this position of a text and no bare name starts there. -/
def NoBareNameAt (s : List Char) (p : ℕ) : Prop :=
  ∃ before due, s = before ++ due ∧ before.length = p ∧ NameDue before due ∧
    ∀ c ∈ due.head?, ¬ Name.BareStart c

/-- The first name that is due is written in front of the rest of a listing, and so are further
names, so a listing can end behind any of them. -/
theorem NameDue.exists_denotes {before due : List Char} (h : NameDue before due)
    {text name rest : List Char} {names : List String} (hname : Name.Spelling text name)
    (hend : ListingEnd rest names) : ∃ c, Denotes (before ++ (text ++ rest)) c := by
  induction h generalizing text name rest names with
  | @first w w' due hw hw' _ _ =>
    refine ⟨.of (String.ofList name :: names), w, '{' :: (w' ++ (text ++ rest)), [], ?_, hw, ?_, ?_⟩
    · simp
    · exact .listing hw' hname hend fun x => NameSet.mem_ofList
    · simp [Blank]
  | @next before text' name' w w' due _ hname' hw hw' _ ih =>
    obtain ⟨c, hc⟩ := ih hname' (.name hw hw' hname hend)
    refine ⟨c, ?_⟩
    simpa using hc

/-- Where a name is due, the listing can be closed. -/
theorem NameDue.exists_denotes_close {before due : List Char} (h : NameDue before due) :
    ∃ c, Denotes (before ++ ['}']) c := by
  cases h with
  | first hw hw' =>
    have hterm := Term.braces (s := .empty) hw' fun x => NameSet.not_mem_empty
    exact ⟨empty, _, _, [], by simp, hw, hterm, by simp [Blank]⟩
  | next hdue hname hw hw' =>
    obtain ⟨c, hc⟩ := hdue.exists_denotes hname (.comma hw hw')
    refine ⟨c, ?_⟩
    simpa using hc

theorem startsBare_iff {s : List Char} :
    Name.startsBare s = true ↔ ∃ c ∈ s.head?, Name.BareStart c := by
  cases s with
  | nil => simp [Name.startsBare]
  | cons c s => simp [Name.startsBare, Name.isBareStart_iff]

theorem no_bareStart_iff {s : List Char} :
    Name.startsBare s = false ↔ ∀ c ∈ s.head?, ¬ Name.BareStart c := by
  rw [← Bool.not_eq_true, startsBare_iff]
  push Not
  rfl

/-- Where no name can be read, no bare name starts. -/
theorem startsBare_of_read_eq_none {s : List Char} (h : Name.read s = none) :
    Name.startsBare s = false := by
  cases s with
  | nil => rfl
  | cons c s =>
    by_cases hc : Name.isBareStart c = true
    · simp [Name.read, hc] at h
    · simpa [Name.startsBare] using hc

/-- White space in front makes no difference to what is left when it is skipped. -/
theorem skipWhiteSpace_blank_append {w : List Char} (hw : Blank w) (s : List Char) :
    skipWhiteSpace (w ++ s) = skipWhiteSpace s :=
  List.dropWhile_append_of_pos fun c hc => isWhiteSpace_iff.2 (hw c hc)

/-- What a listing remembers when a name is due and the rest of the text is read from there: the
place itself if no bare name starts, and all places behind the name if there is one. -/
structure Remembers (l : Listing) (due : List Char) : Prop where
  here : Name.startsBare due = false → due.length ∈ l.marks
  behind : ∀ {name rest}, Name.read due = some (name, rest) → (readMore rest).marks ⊆ l.marks

theorem marks_cons (name due : List Char) (l : Listing) :
    (l.cons name due).marks = if Name.startsBare due then l.marks else due.length :: l.marks := rfl

/-- A name that is read is put in front of what is read behind it. -/
theorem remembers_cons {due name rest : List Char} (h : Name.read due = some (name, rest)) :
    Remembers ((readMore rest).cons name due) due where
  here hbare := by simp [marks_cons, hbare]
  behind hread := by
    obtain ⟨rfl, rfl⟩ := Prod.mk.inj (Option.some.inj (h.symm.trans hread))
    rw [marks_cons]
    split
    · exact List.Subset.refl _
    · exact List.subset_cons_self _ _

theorem remembers_of_no_name {due : List Char} (h : Name.read due = none) {l : Listing}
    (hl : due.length ∈ l.marks) : Remembers l due where
  here _ := hl
  behind hread := by simp [h] at hread

theorem Remembers.mono {l l' : Listing} {due : List Char} (h : Remembers l due)
    (hsub : l.marks ⊆ l'.marks) : Remembers l' due where
  here hbare := hsub (h.here hbare)
  behind hread := List.Subset.trans (h.behind hread) hsub

/-- Behind a comma a name is due, and the reader remembers it. -/
theorem remembers_readMore {w w' due : List Char} (hw : Blank w) (hw' : Blank w')
    (hdue : Flush due) : Remembers (readMore (w ++ ',' :: (w' ++ due))) due := by
  have hs : skipWhiteSpace (w ++ ',' :: (w' ++ due)) = ',' :: (w' ++ due) :=
    skipWhiteSpace_append hw (separates_comma.flush _)
  have hr : skipWhiteSpace (w' ++ due) = due := skipWhiteSpace_append hw' hdue
  rw [readMore_of_comma hs, hr]
  cases hread : Name.read due with
  | none => exact remembers_of_no_name hread List.mem_cons_self
  | some found => exact remembers_cons hread

/-- Behind the opening brace a name is due, and the reader remembers it. -/
theorem remembers_readListing {w due : List Char} (hw : Blank w) (hdue : Flush due)
    (hne : due ≠ []) : Remembers (readListing (w ++ due)) due := by
  have hs : skipWhiteSpace (w ++ due) = due := skipWhiteSpace_append hw hdue
  cases hread : Name.read due with
  | none =>
    refine remembers_of_no_name hread ?_
    simp [readListing, hs, hread, hne]
  | some found =>
    rw [readListing_of_name (by rw [hs]; exact hread), hs]
    exact remembers_cons hread

theorem flush_brace (s : List Char) : Flush ('{' :: s) := by
  intro c hc
  obtain rfl := Option.some.inj hc
  rw [← isWhiteSpace_iff]
  decide

/-- The reader remembers every place where a name is due. -/
theorem NameDue.remembers {before due : List Char} (h : NameDue before due) :
    ∃ body, skipWhiteSpace (before ++ due) = '{' :: body ∧ Remembers (readListing body) due := by
  induction h with
  | @first w w' due hw hw' hdue hne =>
    refine ⟨w' ++ due, ?_, remembers_readListing hw' hdue hne⟩
    rw [List.append_assoc, List.cons_append]
    exact skipWhiteSpace_append hw (flush_brace _)
  | @next before text name w w' due _ hname hw hw' hdue ih =>
    obtain ⟨body, hbody, hmem⟩ := ih
    have hread : Name.read (text ++ (w ++ ',' :: (w' ++ due))) =
        some (name, w ++ ',' :: (w' ++ due)) :=
      Name.read_append hname (separates_comma.endsBare hw _)
    refine ⟨body, ?_, (remembers_readMore hw hw' hdue).mono (hmem.behind hread)⟩
    simpa using hbody

/-- Every place that a listing remembers is one where a name is due and no bare name starts. -/
def RemembersOnly (l : Listing) (s : List Char) : Prop :=
  ∀ m ∈ l.marks, ∃ p, NoBareNameAt s p ∧ p + m = s.length

theorem remembersOnly_here {before due : List Char} (h : NameDue before due)
    (hbare : Name.startsBare due = false) :
    ∃ p, NoBareNameAt (before ++ due) p ∧ p + due.length = (before ++ due).length :=
  ⟨before.length, ⟨before, due, rfl, rfl, h, no_bareStart_iff.1 hbare⟩, List.length_append.symm⟩

theorem remembersOnly_of_no_name {before due : List Char} (h : NameDue before due)
    (hread : Name.read due = none) (names : List String) (rest : List Char) :
    RemembersOnly ⟨names, rest, [due.length]⟩ (before ++ due) := by
  intro m hm
  obtain rfl := List.mem_singleton.1 hm
  exact remembersOnly_here h (startsBare_of_read_eq_none hread)

theorem RemembersOnly.cons {l : Listing} {before due : List Char} (h : NameDue before due)
    (hl : RemembersOnly l (before ++ due)) (name : List Char) :
    RemembersOnly (l.cons name due) (before ++ due) := by
  intro m hm
  rw [marks_cons] at hm
  split at hm
  · exact hl m hm
  · rename_i hbare
    rcases List.mem_cons.1 hm with rfl | hm
    · exact remembersOnly_here h (Bool.eq_false_iff.2 hbare)
    · exact hl m hm

/-- Behind a name that was due, the reader remembers nothing else. -/
theorem remembersOnly_readMore {before text name s : List Char} (hdue : NameDue before (text ++ s))
    (hname : Name.Spelling text name) : RemembersOnly (readMore s) (before ++ (text ++ s)) := by
  obtain ⟨⟨w, hw, hs⟩, -⟩ := skipWhiteSpace_split s
  by_cases hcomma : ∃ r, skipWhiteSpace s = ',' :: r
  · obtain ⟨r, hr⟩ := hcomma
    obtain ⟨⟨w', hw', hr'⟩, hflush⟩ := skipWhiteSpace_split r
    have hsplit : s = w ++ ',' :: (w' ++ skipWhiteSpace r) := by rw [hs, hr, ← hr']
    have hnext : NameDue (before ++ (text ++ (w ++ ',' :: w'))) (skipWhiteSpace r) := by
      rw [hsplit] at hdue
      exact hdue.next hname hw hw' hflush
    have hwhole : before ++ (text ++ s) =
        before ++ (text ++ (w ++ ',' :: w')) ++ skipWhiteSpace r := by
      rw [hsplit]
      simp
    rw [hwhole, readMore_of_comma hr]
    cases hread : Name.read (skipWhiteSpace r) with
    | none => exact remembersOnly_of_no_name hnext hread _ _
    | some found =>
      obtain ⟨name', more⟩ := found
      obtain ⟨text', htext, hspell⟩ := Name.exists_spelling_of_read hread
      -- The induction is on the length of the text: a comma and a name were taken off it.
      have hless : more.length < s.length := by
        have hlen := Name.length_lt_of_read hread
        rw [hsplit, List.length_append, List.length_cons, List.length_append]
        omega
      have hmore : RemembersOnly (readMore more)
          (before ++ (text ++ (w ++ ',' :: w')) ++ skipWhiteSpace r) := by
        rw [htext] at hnext ⊢
        exact remembersOnly_readMore hnext hspell
      exact hmore.cons hnext name'
  · rw [not_exists] at hcomma
    rw [readMore_of_no_comma hcomma]
    intro m hm
    exact absurd hm List.not_mem_nil
termination_by s.length

/-- Inside braces, the reader remembers only places where a name is due. -/
theorem remembersOnly_readListing {w : List Char} (hw : Blank w) (body : List Char) :
    RemembersOnly (readListing body) (w ++ '{' :: body) := by
  obtain ⟨⟨w', hw', hbody⟩, hflush⟩ := skipWhiteSpace_split body
  have hwhole : w ++ '{' :: body = w ++ '{' :: w' ++ skipWhiteSpace body := by
    rw [List.append_assoc, List.cons_append, ← hbody]
  by_cases hend : skipWhiteSpace body = []
  · have hmarks : (readListing body).marks = [] := by simp [readListing, hend, Name.read]
    intro m hm
    rw [hmarks] at hm
    exact absurd hm List.not_mem_nil
  · have hfirst : NameDue (w ++ '{' :: w') (skipWhiteSpace body) := .first hw hw' hflush hend
    rw [hwhole]
    cases hread : Name.read (skipWhiteSpace body) with
    | none =>
      have hlist : readListing body =
          ⟨[], skipWhiteSpace body, [(skipWhiteSpace body).length]⟩ := by
        simp [readListing, hread, hend]
      rw [hlist]
      exact remembersOnly_of_no_name hfirst hread _ _
    | some found =>
      obtain ⟨name, more⟩ := found
      obtain ⟨text, htext, hspell⟩ := Name.exists_spelling_of_read hread
      rw [readListing_of_name hread]
      refine RemembersOnly.cons hfirst ?_ name
      rw [htext] at hfirst ⊢
      exact remembersOnly_readMore hfirst hspell

theorem foldl_min_isLeast (n : ℕ) (marks : List ℕ) :
    IsLeast {m | m = n ∨ m ∈ marks} (marks.foldl min n) := by
  have hmin : (n :: marks).min? = some (marks.foldl min n) := List.min?_cons'
  obtain ⟨hmem, hle⟩ := List.min?_eq_some_iff.1 hmin
  exact ⟨List.mem_cons.1 hmem, fun m hm => hle m (List.mem_cons.2 hm)⟩

/-- Inside unclosed braces the least amount of text that was left belongs to the furthest place. -/
theorem isGreatest_unclosed {w : List Char} (hw : Blank w) (body : List Char) :
    IsGreatest {q | q = w.length ∨ NoBareNameAt (w ++ '{' :: body) q}
      ((w ++ '{' :: body).length - (readListing body).marks.foldl min (body.length + 1)) := by
  have hlen : (w ++ '{' :: body).length = w.length + (body.length + 1) := by simp
  obtain ⟨hmem, hle⟩ := foldl_min_isLeast (body.length + 1) (readListing body).marks
  constructor
  · rcases hmem with hnone | hmark
    · left
      omega
    · right
      obtain ⟨p, hp, hsum⟩ := remembersOnly_readListing hw body _ hmark
      have hq : (w ++ '{' :: body).length -
          (readListing body).marks.foldl min (body.length + 1) = p := by omega
      rwa [hq]
  · rintro q (rfl | ⟨before, due, hsplit, rfl, hdue, hbare⟩)
    · have hnone := hle (.inl rfl)
      omega
    · obtain ⟨body', hbody, hremembers⟩ := hdue.remembers
      have hskip : skipWhiteSpace (before ++ due) = '{' :: body := by
        rw [← hsplit]
        exact skipWhiteSpace_append hw (flush_brace body)
      obtain rfl : body' = body := (List.cons.inj (hbody.symm.trans hskip)).2
      have hmark := hle (.inr (hremembers.here (no_bareStart_iff.2 hbare)))
      rw [hsplit, List.length_append]
      omega

end FeatureLattice.Context
