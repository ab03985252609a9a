import FeatureLattice.Proofs.ValueEquality
import FeatureLattice.Value.Notebook
import FeatureLattice.ValueSet
import Mathlib.Data.List.Pairwise

/-!
# Copies and the notes of their tags

A copy of a set of elements equals the set and has as many elements. Through sets nested at any
depth, a copyable tag is replaced by one of the same name on a new page, which starts with the notes
of the old one, and any other tag is shared. So notes that are added later on one side show on the
other side on shared tags only.
-/
namespace FeatureLattice

/-- Copyable tags with pages of their own. -/
def Tag.Apart (t u : Tag) : Prop := t.mode = .copyable → u.mode = .copyable → t.id ≠ u.id

instance : Std.Symm Tag.Apart where
  symm _ _ h hu ht := (h ht hu).symm

namespace Notebook

variable {nb nb' nb'' : Notebook} {t u : Tag} {ts us ts' us' : List Tag}

/-- Add notes to tags, one after another. -/
def addNotes (nb : Notebook) (added : List (Tag × String)) : Notebook :=
  added.foldl (fun nb a => nb.addNote a.1.id a.2) nb

/-- The notes of a list that are for a given tag. -/
def notesFor (t : Tag) (added : List (Tag × String)) : List String :=
  (added.filter fun a => a.1.id = t.id).map (·.2)

theorem notesFor_eq_nil {added : List (Tag × String)} (h : ∀ a ∈ added, a.1.id ≠ t.id) :
    notesFor t added = [] := by
  simpa [notesFor, List.filter_eq_nil_iff] using fun v note ha => h (v, note) ha

/-- What is added to a tag follows what it had, whatever other tags get in between. -/
theorem notes_addNotes (ht : t.id < nb.pages.length) (added : List (Tag × String)) :
    (nb.addNotes added).notes t.id = nb.notes t.id ++ notesFor t added := by
  induction added generalizing nb with
  | nil => simp [addNotes, notesFor]
  | cons a added ih =>
    have ht' : t.id < (nb.addNote a.1.id a.2).pages.length := by simpa using ht
    have hrest := ih ht'
    change ((nb.addNote a.1.id a.2).addNotes added).notes t.id = _
    by_cases ha : a.1.id = t.id
    · have hfor : notesFor t (a :: added) = a.2 :: notesFor t added := by simp [notesFor, ha]
      rw [hrest, hfor, ha, notes_addNote_self ht, List.append_assoc, List.singleton_append]
    · have hfor : notesFor t (a :: added) = notesFor t added := by simp [notesFor, ha]
      rw [hrest, hfor, notes_addNote_of_ne nb ha]

/-- A notebook keeps tags when each of them has a page and no other one has the same page. -/
structure Keeps (nb : Notebook) (ts : List Tag) : Prop where
  page : ∀ t ∈ ts, t.id < nb.pages.length
  apart : ∀ t ∈ ts, ∀ u ∈ ts, t.id = u.id → t = u

/-- Every tag is made with a page of its own. -/
theorem Keeps.newTag (h : nb.Keeps ts) (name : String) (notes : List String) (mode : CopyMode) :
    (nb.newTag name notes mode).2.Keeps ((nb.newTag name notes mode).1 :: ts) where
  page t ht := by
    have hlength : (nb.newTag name notes mode).2.pages.length = nb.pages.length + 1 := by
      simp [Notebook.newTag, newPage]
    rcases List.mem_cons.1 ht with rfl | ht
    · exact hlength ▸ Nat.lt_succ_self _
    · exact hlength ▸ Nat.lt_succ_of_lt (h.page t ht)
  apart t ht u hu hid := by
    have hnew : (nb.newTag name notes mode).1.id = nb.pages.length := rfl
    rcases List.mem_cons.1 ht with rfl | ht <;> rcases List.mem_cons.1 hu with rfl | hu
    · rfl
    · have hpage := h.page u hu
      omega
    · have hpage := h.page t ht
      omega
    · exact h.apart t ht u hu hid

theorem Keeps.addNote (h : nb.Keeps ts) (id : Nat) (note : String) : (nb.addNote id note).Keeps ts :=
  { h with page := by simpa using h.page }

/-- What copying makes of a tag: a copyable one is replaced by one of its name on a new page that
starts with its notes, any other one is shared. -/
structure CopiedAs (nb nb' : Notebook) (t u : Tag) : Prop where
  name : u.name = t.name
  mode : u.mode = t.mode
  fresh : t.mode = .copyable → nb.pages.length ≤ u.id
  shared : t.mode ≠ .copyable → u = t
  page : u.id < nb'.pages.length
  notes : nb'.notes u.id = nb.notes t.id

/-- What copying makes of a list of tags: the notebook gets new pages at its end, and no two copied
tags have the same one. -/
structure CopiedTo (nb nb' : Notebook) (ts us : List Tag) : Prop where
  grows : nb.pages <+: nb'.pages
  each : List.Forall₂ (nb.CopiedAs nb') ts us
  apart : us.Pairwise Tag.Apart

theorem CopiedAs.grow (h : nb.CopiedAs nb' t u) (hgrows : nb'.pages <+: nb''.pages) :
    nb.CopiedAs nb'' t u :=
  { h with
    page := Nat.lt_of_lt_of_le h.page hgrows.length_le
    notes := (notes_of_isPrefix hgrows h.page).trans h.notes }

/-- A tag that is copied late had its notes all along. -/
theorem CopiedAs.delay (h : nb'.CopiedAs nb'' t u) (hgrows : nb.pages <+: nb'.pages)
    (ht : t.id < nb.pages.length) : nb.CopiedAs nb'' t u :=
  { h with
    fresh := fun hmode => Nat.le_trans hgrows.length_le (h.fresh hmode)
    notes := h.notes.trans (notes_of_isPrefix hgrows ht) }

theorem CopiedTo.nil (nb : Notebook) : nb.CopiedTo nb [] [] :=
  ⟨List.prefix_rfl, .nil, .nil⟩

/-- Copying goes on with the notebook it has made. -/
theorem CopiedTo.append (h : nb.CopiedTo nb' ts us) (h' : nb'.CopiedTo nb'' ts' us')
    (hts' : ∀ t ∈ ts', t.id < nb.pages.length) : nb.CopiedTo nb'' (ts ++ ts') (us ++ us') where
  grows := h.grows.trans h'.grows
  each := by
    refine List.rel_append (h.each.imp fun _ _ htu => htu.grow h'.grows) ?_
    exact ((List.forall₂_and_left ts' us').2 ⟨hts', h'.each⟩).imp
      fun _ _ htu => htu.2.delay h.grows htu.1
  apart := by
    refine List.pairwise_append.2 ⟨h.apart, h'.apart, fun u hu u' hu' _ hmode' => ?_⟩
    obtain ⟨t, -, htu⟩ := exists_of_forall₂_right h.each hu
    obtain ⟨t', -, htu'⟩ := exists_of_forall₂_right h'.each hu'
    have hlow := htu.page
    have hhigh := htu'.fresh (htu'.mode ▸ hmode')
    omega

/-- A tag of a copy is one of the old tags and shared, or it stands on a new page. -/
theorem CopiedTo.shared_or_fresh (h : nb.CopiedTo nb' ts us) (hu : u ∈ us) :
    (u ∈ ts ∧ u.mode ≠ .copyable) ∨ (u.mode = .copyable ∧ nb.pages.length ≤ u.id) := by
  obtain ⟨t, ht, hcopied⟩ := exists_of_forall₂_right h.each hu
  by_cases hmode : t.mode = .copyable
  · exact .inr ⟨hcopied.mode.trans hmode, hcopied.fresh hmode⟩
  · have hsame : u = t := hcopied.shared hmode
    exact .inl ⟨hsame ▸ ht, hsame ▸ hmode⟩

/-- After copying, the notebook keeps the tags of both sides. -/
theorem CopiedTo.keeps (h : nb.CopiedTo nb' ts us) (hnb : nb.Keeps ts) : nb'.Keeps (ts ++ us) where
  page t ht := by
    rcases List.mem_append.1 ht with ht | ht
    · exact Nat.lt_of_lt_of_le (hnb.page t ht) h.grows.length_le
    · obtain ⟨t', -, hcopied⟩ := exists_of_forall₂_right h.each ht
      exact hcopied.page
  apart := by
    have hold : ∀ t ∈ ts ++ us, t ∈ ts ∨
        (t ∈ us ∧ t.mode = .copyable ∧ nb.pages.length ≤ t.id) := by
      intro t ht
      rcases List.mem_append.1 ht with ht | ht
      · exact .inl ht
      · exact (h.shared_or_fresh ht).imp And.left fun hfresh => ⟨ht, hfresh⟩
    intro t ht u hu hid
    rcases hold t ht with ht | ⟨ht, htmode, htid⟩ <;> rcases hold u hu with hu | ⟨hu, humode, huid⟩
    · exact hnb.apart t ht u hu hid
    · have hpage := hnb.page t ht
      omega
    · have hpage := hnb.page u hu
      omega
    · by_contra hne
      exact h.apart.forall ht hu hne htmode humode hid

/-- Notes added on one side of a copy, as a tag of the other side shows them: a copied tag has the
notes it had when it was copied, a shared one has those that are for it as well. -/
def ShowsShared (nb after : Notebook) (added : List (Tag × String)) (t seen : Tag) : Prop :=
  after.notes seen.id =
    if t.mode = .copyable then nb.notes t.id else nb.notes t.id ++ notesFor t added

/-- Notes added to the old tags, seen through the copies. -/
theorem CopiedTo.showsShared_copies (h : nb.CopiedTo nb' ts us) (hnb : nb.Keeps ts)
    {added : List (Tag × String)} (hadded : ∀ a ∈ added, a.1 ∈ ts) :
    List.Forall₂ (nb.ShowsShared (nb'.addNotes added) added) ts us := by
  refine h.each.imp fun t u hcopied => ?_
  have hread := notes_addNotes hcopied.page added
  rw [hcopied.notes] at hread
  unfold ShowsShared
  split
  · rename_i hmode
    have hnone : notesFor u added = [] := notesFor_eq_nil fun a ha => by
      have hpage := hnb.page a.1 (hadded a ha)
      have hfresh := hcopied.fresh hmode
      omega
    rw [hread, hnone, List.append_nil]
  · rename_i hmode
    rw [hread, hcopied.shared hmode]

/-- Notes added to the copies, seen through the old tags. -/
theorem CopiedTo.showsShared_originals (h : nb.CopiedTo nb' ts us) (hnb : nb.Keeps ts)
    {added : List (Tag × String)} (hadded : ∀ a ∈ added, a.1 ∈ us) :
    ∀ t ∈ ts, nb.ShowsShared (nb'.addNotes added) added t t := by
  intro t ht
  have hpage : t.id < nb.pages.length := hnb.page t ht
  have hread := notes_addNotes (Nat.lt_of_lt_of_le hpage h.grows.length_le) added
  rw [notes_of_isPrefix h.grows hpage] at hread
  unfold ShowsShared
  split
  · rename_i hmode
    have hnone : notesFor t added = [] := notesFor_eq_nil fun a ha hid => by
      rcases h.shared_or_fresh (hadded a ha) with ⟨hold, hshared⟩ | ⟨-, hfresh⟩
      · -- a shared tag on the page of a copied one would be that tag
        have htag : a.1 = t := hnb.apart a.1 hold t ht hid
        exact hshared (htag ▸ hmode)
      · omega
    rw [hread, hnone, List.append_nil]
  · exact hread

/-- Copying one tag. -/
theorem CopiedTo.newTag (nb : Notebook) (ht : t.mode = .copyable) :
    nb.CopiedTo (nb.newTag t.name (nb.notes t.id) .copyable).2 [t]
      [(nb.newTag t.name (nb.notes t.id) .copyable).1] where
  grows := List.prefix_append _ _
  each := .cons
    { name := rfl
      mode := ht.symm
      fresh := fun _ => Nat.le_refl _
      shared := fun h => absurd ht h
      page := by simp [Notebook.newTag, newPage]
      notes := notes_newPage nb _ } .nil
  apart := List.pairwise_singleton _ _

/-- Sharing one tag. -/
theorem CopiedTo.share (ht : t.id < nb.pages.length) (hmode : t.mode ≠ .copyable) :
    nb.CopiedTo nb [t] [t] where
  grows := List.prefix_rfl
  each := .cons ⟨rfl, rfl, fun h => absurd h hmode, fun _ => rfl, ht, rfl⟩ .nil
  apart := List.pairwise_singleton _ _

end Notebook

namespace Value

mutual

/-- The tags that are reached through sets nested in one another, in order. -/
def tags : Value → List Tag
  | tag t => [t]
  | collection .valueSet items => itemTags items
  | _ => []
  termination_by structural v => v

def itemTags : List Value → List Tag
  | [] => []
  | x :: xs => tags x ++ itemTags xs
  termination_by structural xs => xs

end

variable {v : Value} {xs : List Value}

theorem forall₂_same_copyItems (h : ∀ x ∈ xs, ∀ nb, same (x.copy nb).1 x = true) (nb : Notebook) :
    List.Forall₂ (fun y x => same y x = true) (copyItems nb xs).1 xs := by
  induction xs generalizing nb with
  | nil => exact .nil
  | cons x xs ih =>
    exact .cons (h x List.mem_cons_self nb) (ih (fun y hy => h y (List.mem_cons_of_mem x hy)) _)

/-- The copy of a value that equals itself equals the value. -/
theorem same_copy (hv : same v v = true) (nb : Notebook) : same (v.copy nb).1 v = true := by
  induction v generalizing nb with
  | tag t =>
    unfold copy
    split <;> simp [same, Notebook.newTag]
  | collection form items ih =>
    cases form with
    | valueSet =>
      have hself : ∀ x ∈ items, same x x = true := fun x hx => by
        obtain ⟨y, -, hxy⟩ := (same_collection_iff.1 hv).2.1 x hx
        exact same_trans hxy (same_symm hxy)
      have hcopies := forall₂_same_copyItems (fun x hx => ih x hx (hself x hx)) nb
      refine same_collection_iff.2 ⟨rfl, fun y hy => ?_, fun x hx => ?_⟩
      · exact exists_of_forall₂_left hcopies (mem_of_mem_distinct hy)
      · obtain ⟨y, hy, hyx⟩ := exists_of_forall₂_right hcopies hx
        have hcopied : occursIn x (copyItems nb items).1 = true := occursIn_iff.2 ⟨y, hy, hyx⟩
        exact occursIn_iff.1 (occursIn_distinct.trans hcopied)
    | _ => exact hv
  | _ => exact hv

/-- Copies of unequal elements are unequal, so copying the elements of a set loses none. -/
theorem unequal_copyItems (hxs : ∀ x ∈ xs, IsElement x) (hunequal : Unequal xs) (nb : Notebook) :
    Unequal (copyItems nb xs).1 :=
  Unequal.of_forall₂ (forall₂_same_copyItems (fun x hx => same_copy (hxs x hx).same_self) nb) hunequal

theorem copy_valueSet (hxs : ∀ x ∈ xs, IsElement x) (hunequal : Unequal xs) (nb : Notebook) :
    (collection .valueSet xs).copy nb =
      (collection .valueSet (copyItems nb xs).1, (copyItems nb xs).2) := by
  have hdistinct := distinct_of_unequal (unequal_copyItems hxs hunequal nb)
  simp only [copy, hdistinct]

/-- Item after item, copying makes of the tags of a list what it should. -/
theorem copiedTo_copyItems
    (h : ∀ x ∈ xs, ∀ nb : Notebook, (∀ t ∈ x.tags, t.id < nb.pages.length) →
      nb.CopiedTo (x.copy nb).2 x.tags (x.copy nb).1.tags)
    {nb : Notebook} (hpages : ∀ t ∈ itemTags xs, t.id < nb.pages.length) :
    nb.CopiedTo (copyItems nb xs).2 (itemTags xs) (itemTags (copyItems nb xs).1) := by
  induction xs generalizing nb with
  | nil => exact .nil nb
  | cons x xs ih =>
    have hfirst := h x List.mem_cons_self nb fun t ht => hpages t (List.mem_append_left _ ht)
    have hlater : ∀ t ∈ itemTags xs, t.id < nb.pages.length := fun t ht =>
      hpages t (List.mem_append_right _ ht)
    have hrest := ih (fun y hy => h y (List.mem_cons_of_mem x hy)) fun t ht =>
      Nat.lt_of_lt_of_le (hlater t ht) hfirst.grows.length_le
    exact hfirst.append hrest hlater

/-- What copying makes of the tags reached through an element. -/
theorem IsElement.copiedTo_copy (hv : IsElement v) {nb : Notebook}
    (hpages : ∀ t ∈ v.tags, t.id < nb.pages.length) :
    nb.CopiedTo (v.copy nb).2 v.tags (v.copy nb).1.tags := by
  induction hv generalizing nb with
  | tag t =>
    by_cases hmode : t.mode = .copyable
    · simpa [copy, hmode, tags] using Notebook.CopiedTo.newTag nb hmode
    · simpa [copy, hmode, tags] using
        Notebook.CopiedTo.share (hpages t List.mem_cons_self) hmode
  | @collection form items hform hunequal helements ih =>
    cases form with
    | set => exact absurd rfl hform
    | frozenset => exact .nil nb
    | valueSet =>
      rw [copy_valueSet helements hunequal]
      exact copiedTo_copyItems (fun x hx nb => ih x hx) hpages
  | _ => exact .nil nb

end Value

namespace ValueSet

theorem isElement_of_mem_ofList {xs : List Value} (h : ∀ v ∈ xs, v.IsElement) :
    ∀ v ∈ (ofList xs).elements, v.IsElement := fun v hv => h v (mem_of_mem_distinct hv)

theorem isElement_toValue {s : ValueSet} (h : ∀ v ∈ s.elements, v.IsElement) :
    s.toValue.IsElement := .collection (by decide) s.unequal h

/-- **A copy severs the notes of copyable tags at every depth.** The copy of a set of elements is a
set of as many elements that equals it. Each copyable tag reached through nested sets has become one
of its name on a page of its own, with the notes of that moment; every other tag is shared. Whatever
notes are then added to the tags of one side, the other side shows those for shared tags only. -/
theorem copy_severs_notes {nb : Notebook} {s : ValueSet} (hs : ∀ v ∈ s.elements, v.IsElement)
    (hnb : nb.Keeps s.toValue.tags) :
    ∃ (d : ValueSet) (nb' : Notebook), s.toValue.copy nb = (d.toValue, nb') ∧
      (d == s) = true ∧ d.size = s.size ∧
      nb.CopiedTo nb' s.toValue.tags d.toValue.tags ∧
      nb'.Keeps (s.toValue.tags ++ d.toValue.tags) ∧
      (∀ added : List (Tag × String), (∀ a ∈ added, a.1 ∈ s.toValue.tags) →
        List.Forall₂ (nb.ShowsShared (nb'.addNotes added) added) s.toValue.tags d.toValue.tags) ∧
      ∀ added : List (Tag × String), (∀ a ∈ added, a.1 ∈ d.toValue.tags) →
        ∀ t ∈ s.toValue.tags, nb.ShowsShared (nb'.addNotes added) added t t := by
  have helement : s.toValue.IsElement := isElement_toValue hs
  have hcopy := Value.copy_valueSet hs s.unequal nb
  let d : ValueSet := ⟨(Value.copyItems nb s.elements).1, Value.unequal_copyItems hs s.unequal nb⟩
  let nb' := (Value.copyItems nb s.elements).2
  have hd : s.toValue.copy nb = (d.toValue, nb') := hcopy
  have hsame : (s.toValue.copy nb).1.same s.toValue = true :=
    Value.same_copy helement.same_self nb
  rw [hd] at hsame
  have hsize : d.size = s.size :=
    (Value.forall₂_same_copyItems (fun v hv => Value.same_copy (hs v hv).same_self) nb).length_eq
  have htags : nb.CopiedTo nb' s.toValue.tags d.toValue.tags := by
    simpa [hd] using helement.copiedTo_copy hnb.page
  exact ⟨d, nb', hd, hsame, hsize, htags, htags.keeps hnb,
    fun _ hadded => htags.showsShared_copies hnb hadded,
    fun _ hadded => htags.showsShared_originals hnb hadded⟩

/-- A set with a copyable tag, a plain one, and a set nested in it that has the copyable tag again
and one that only looks copyable. -/
def nestedTags : ValueSet :=
  .ofList [.tag ⟨"net", .copyable, 0⟩, .tag ⟨"io", .plain, 1⟩, .int 1,
    (ofList [.tag ⟨"ui", .lookalike, 2⟩, .tag ⟨"net", .copyable, 0⟩]).toValue]

theorem tags_nestedTags :
    nestedTags.toValue.tags = [⟨"net", .copyable, 0⟩, ⟨"io", .plain, 1⟩, ⟨"ui", .lookalike, 2⟩,
      ⟨"net", .copyable, 0⟩] := by
  decide +kernel

/-- Of three notes added to the tags of the set, its copy shows the one for the plain tag. -/
theorem copy_severs_notes_nested :
    (∀ v ∈ nestedTags.elements, v.IsElement) ∧
    Notebook.Keeps ⟨[["first"], ["read"], []]⟩ nestedTags.toValue.tags ∧
    ∃ (d : ValueSet) (nb : Notebook),
      nestedTags.toValue.copy ⟨[["first"], ["read"], []]⟩ = (d.toValue, nb) ∧
      (d == nestedTags) = true ∧
      d.toValue.tags.map (fun u => (nb.addNotes [(⟨"net", .copyable, 0⟩, "second"),
          (⟨"io", .plain, 1⟩, "write"), (⟨"net", .copyable, 0⟩, "third")]).notes u.id) =
        [["first"], ["read", "write"], [], ["first"]] := by
  have helements : ∀ v ∈ nestedTags.elements, v.IsElement := by
    refine isElement_of_mem_ofList ?_
    simp only [List.forall_mem_cons, List.not_mem_nil, false_implies, implies_true, and_true]
    refine ⟨.tag _, .tag _, .number _, isElement_toValue (isElement_of_mem_ofList ?_)⟩
    simp only [List.forall_mem_cons, List.not_mem_nil, false_implies, implies_true, and_true]
    exact ⟨.tag _, .tag _⟩
  have hkeeps : Notebook.Keeps ⟨[["first"], ["read"], []]⟩ nestedTags.toValue.tags := by
    rw [tags_nestedTags]
    exact ⟨by decide, by decide⟩
  obtain ⟨d, nb, hd, hsame, -, -, -, hshows, -⟩ := copy_severs_notes helements hkeeps
  have hseen := hshows [(⟨"net", .copyable, 0⟩, "second"), (⟨"io", .plain, 1⟩, "write"),
    (⟨"net", .copyable, 0⟩, "third")] (by rw [tags_nestedTags]; decide)
  rw [tags_nestedTags] at hseen
  refine ⟨helements, hkeeps, d, nb, hd, hsame, ?_⟩
  generalize d.toValue.tags = us at hseen ⊢
  rcases hseen with _ | ⟨hnet, _ | ⟨hio, _ | ⟨hui, _ | ⟨hnet', ⟨⟩⟩⟩⟩⟩
  unfold Notebook.ShowsShared at hnet hio hui hnet'
  rw [List.map_cons, List.map_cons, List.map_cons, List.map_cons, hnet, hio, hui, hnet']
  rfl

end ValueSet

end FeatureLattice
