import FeatureLattice.Value

/-!
# Notes of tags and copies of sets

The notes of all tags stand in one notebook, a page for each tag. A note that is added to a tag is
seen through every set that shares the tag. Copying a set goes through the sets nested in it and
gives each copyable tag a fresh page that starts with the notes of the old one; every other
element is shared with the copy. The copied elements fill a new set.
-/
namespace FeatureLattice

/-- The notes of each tag, by the number of its page. -/
structure Notebook where
  pages : List (List String)
  deriving DecidableEq

namespace Notebook

def empty : Notebook := ⟨[]⟩

def notes (nb : Notebook) (id : Nat) : List String := nb.pages[id]?.getD []

/-- Start a page with the given notes: its number and the notebook with it. -/
def newPage (nb : Notebook) (notes : List String) : Nat × Notebook :=
  (nb.pages.length, ⟨nb.pages ++ [notes]⟩)

/-- Add a note at the end of a page. -/
def addNote (nb : Notebook) (id : Nat) (note : String) : Notebook :=
  ⟨nb.pages.modify id (· ++ [note])⟩

/-- Make a new tag. -/
def newTag (nb : Notebook) (name : String) (notes : List String) (mode : CopyMode) :
    Tag × Notebook :=
  let (id, nb) := nb.newPage notes
  (⟨name, mode, id⟩, nb)

theorem notes_newPage (nb : Notebook) (notes : List String) :
    (nb.newPage notes).2.notes nb.pages.length = notes := by
  simp [newPage, Notebook.notes]

@[simp] theorem length_pages_addNote (nb : Notebook) (id : Nat) (note : String) :
    (nb.addNote id note).pages.length = nb.pages.length := by
  simp [addNote]

theorem notes_addNote_self {nb : Notebook} {id : Nat} (h : id < nb.pages.length) (note : String) :
    (nb.addNote id note).notes id = nb.notes id ++ [note] := by
  simp [addNote, notes, h]

theorem notes_addNote_of_ne (nb : Notebook) {id i : Nat} (h : id ≠ i) (note : String) :
    (nb.addNote id note).notes i = nb.notes i := by
  simp [addNote, notes, h]

/-- New pages do not change what stands on the old ones. -/
theorem notes_of_isPrefix {nb nb' : Notebook} (h : nb.pages <+: nb'.pages) {id : Nat}
    (hid : id < nb.pages.length) : nb'.notes id = nb.notes id := by
  obtain ⟨new, hnew⟩ := h
  rw [notes, notes, ← hnew, List.getElem?_append_left hid]

end Notebook

namespace Value

mutual

/-- A copy of a value as an element of a copied set. -/
def copy (nb : Notebook) : Value → Value × Notebook
  | collection .valueSet items =>
    let (items, nb) := copyItems nb items
    (collection .valueSet (distinct items), nb)
  | tag t =>
    if t.mode = .copyable then
      let (t, nb) := nb.newTag t.name (nb.notes t.id) .copyable
      (tag t, nb)
    else (tag t, nb)
  | v => (v, nb)
  termination_by structural v => v

def copyItems (nb : Notebook) : List Value → List Value × Notebook
  | [] => ([], nb)
  | x :: xs =>
    let (x, nb) := copy nb x
    let (xs, nb) := copyItems nb xs
    (x :: xs, nb)
  termination_by structural xs => xs

end

end Value

end FeatureLattice
