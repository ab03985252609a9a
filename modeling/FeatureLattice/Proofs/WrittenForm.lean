import FeatureLattice.Context.Printer
import FeatureLattice.Proofs.ContextGrammar

/-!
# Written forms are read back

The printer and the reader are separate programs. They meet in the grammar: the written form of a
context is one of the texts that denote it, whatever characters its names have.
-/
namespace FeatureLattice.Context
open Text

theorem commaSeparated_cons (part : List Char) (parts : List (List Char)) :
    commaSeparated (part :: parts) = part ++ parts.flatMap fun p => ',' :: ' ' :: p := by
  induction parts generalizing part with
  | nil => simp [commaSeparated]
  | cons next parts ih =>
    have hstep : commaSeparated (part :: next :: parts) =
        part ++ ',' :: ' ' :: commaSeparated (next :: parts) := by
      simp [commaSeparated]
    rw [hstep, ih]
    simp

theorem blank_nil : Blank [] := by simp [Blank]

theorem blank_space : Blank [' '] := by
  intro c hc
  obtain rfl := List.mem_singleton.1 hc
  exact isWhiteSpace_iff.1 (by decide)

/-- Behind the first name, each further name stands behind a comma and a blank. -/
theorem listingEnd_written (names : List String) :
    ListingEnd ((names.flatMap fun x => ',' :: ' ' :: Name.written x.toList) ++ ['}']) names := by
  induction names with
  | nil => exact .close blank_nil
  | cons x names ih =>
    have hnext := ListingEnd.name blank_nil blank_space (Name.spelling_written x.toList) ih
    simpa using hnext

/-- The written form of a context denotes it. -/
theorem denotes_writtenChars (c : Context) : Denotes c.writtenChars c := by
  have hterm : Term c.writtenChars c := by
    cases c with
    | universal => exact .star
    | concrete s =>
      cases hs : s.names with
      | nil =>
        have hnone : ∀ x, ¬ x ∈ s := fun x => by simp [← NameSet.mem_names, hs]
        simpa [writtenChars, hs, commaSeparated] using Term.braces blank_nil hnone
      | cons x names =>
        have hmem : ∀ y, y ∈ s ↔ y ∈ String.ofList x.toList :: names := fun y => by
          rw [← NameSet.mem_names, hs, String.ofList_toList]
        have hlist := Term.listing blank_nil (Name.spelling_written x.toList)
          (listingEnd_written names) hmem
        simpa [writtenChars, hs, commaSeparated_cons, List.flatMap_map] using hlist
  exact ⟨[], _, [], by simp, blank_nil, hterm, blank_nil⟩

theorem read_written (c : Context) : read c.written = .ok c := by
  have hread : readAll c.writtenChars = .ok c := readAll_eq_ok_iff.2 (denotes_writtenChars c)
  simp [read, written, hread]

/-- Reading the written form of any context gives the context back. -/
theorem ofText_written (c : Context) : ofText c.written = .ok c := by
  have hread : readAll c.writtenChars = .ok c := readAll_eq_ok_iff.2 (denotes_writtenChars c)
  simp [ofText, read, written, hread]

end FeatureLattice.Context
