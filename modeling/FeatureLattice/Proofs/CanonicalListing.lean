import FeatureLattice.Proofs.ValueForms

/-!
# The literal form of a set is canonical

A set of plain values, texts, contexts, tuples and sets shows its elements in one order, whatever
order it was filled in. No two elements have the same form, so the order is strict, whether the
elements themselves are compared or their forms.
-/
namespace FeatureLattice

namespace ValueSet

/-- The elements of a set in the order in which its literal form lists them, each once: ascending if
any two of them can be compared, and by their literal forms otherwise. -/
structure ListedAs (nb : Notebook) (s : ValueSet) (order : List Value) : Prop where
  perm : order.Perm s.elements
  literal_eq : s.toValue.literal nb = if order = [] then "ValueSet()"
    else "ValueSet(\x7b" ++ listed (order.map fun v => v.literal nb) ++ "\x7d)"
  ascending : s.elements.Pairwise Value.Comparable → order.Pairwise Value.Precedes
  ascending_literals : ¬ s.elements.Pairwise Value.Comparable →
    (order.map fun v => v.literal nb).Pairwise (· < ·)
  nodup : (order.map fun v => v.literal nb).Nodup

variable {nb : Notebook} {s : ValueSet}

theorem listedAs_listing (h : ∀ v ∈ s.elements, v.IsListable) :
    s.ListedAs nb (Value.listing nb s.elements) := by
  have hperm := Value.listing_perm nb s.elements
  have hchain := Value.chain_iff h s.unequal
  have hcomparable := Value.allComparable_iff_chain h s.unequal
  have hnodup : ((Value.listing nb s.elements).map fun v => v.literal nb).Nodup := by
    have hunequal : Unequal (Value.listing nb s.elements) := s.unequal.perm hperm
    refine List.pairwise_map.2 (hunequal.imp_of_mem fun {v w} hv hw hne he => ?_)
    have hsame := (h v (hperm.mem_iff.1 hv)).same_of_literal nb (h w (hperm.mem_iff.1 hw)) he
    exact ne_true_of_eq_false hne hsame
  refine ⟨hperm, ?_, fun hpairs => ?_, fun hpairs => ?_, hnodup⟩
  · have hempty : Value.listing nb s.elements = [] ↔ s.elements = [] := by
      rw [← List.length_eq_zero_iff, ← List.length_eq_zero_iff, hperm.length_eq]
    rw [toValue, Value.literal_valueSet]
    simp only [hempty]
  · rw [Value.listing, if_pos (hcomparable.2 (hchain.2 hpairs))]
    exact (hchain.2 hpairs).pairwise_mergeSort
  · have hno := mt hcomparable.1 (mt hchain.1 hpairs)
    rw [Value.listing, if_neg hno, Value.map_literal_mergeSort] at hnodup ⊢
    exact (List.sortedLE_mergeSort.sortedLT_of_nodup hnodup).pairwise

/-- **The literal form of a set does not depend on how the set was filled.** Unequal values fill a
set whose form lists each of them once: in strictly ascending order if any two of them can be
compared, and in the order of their literal forms otherwise. Whatever order they are put in, and the
items of the sets among them or inside them, the form is the same. -/
theorem literal_ofList_canonical (nb : Notebook) {xs : List Value}
    (hlist : ∀ v ∈ xs, v.IsListable) (hunequal : Unequal xs) :
    (∃ order, (ofList xs).ListedAs nb order ∧ order.Perm xs) ∧
    ∀ ys zs, List.Forall₂ Value.Refilled xs ys → zs.Perm ys →
      (ofList zs).toValue.literal nb = (ofList xs).toValue.literal nb := by
  have helements : (ofList xs).elements = xs := distinct_of_unequal hunequal
  have hlisted : ∀ v ∈ (ofList xs).elements, v.IsListable := by rwa [helements]
  refine ⟨⟨_, listedAs_listing hlisted, ?_⟩, fun ys zs hrefilled hperm => ?_⟩
  · rw [helements]
    exact Value.listing_perm nb xs
  · have hform := (Value.IsListable.valueSet hunequal hlist).sameForm nb
      (.valueSet hrefilled hperm)
    have hzs : Unequal zs := by
      cases hform.isListable with
      | valueSet hzs _ => exact hzs
    have helements' : (ofList zs).elements = zs := distinct_of_unequal hzs
    rw [toValue, toValue, helements, helements', hform.literal]

/-- A set of a text and a number, infinity and nothing. -/
def mixedItems : List Value :=
  [.collection .valueSet [.str "a", .int 1], .number (.float .infinity), .absent]

/-- The same in another order, the set inside too. -/
def mixedAgain : List Value :=
  [.absent, .collection .valueSet [.int 1, .str "a"], .number (.float .infinity)]

/-- Not all of the values can be compared, so their forms decide, in both orders alike. -/
theorem literal_ofList_canonical_mixed :
    (∀ v ∈ mixedItems, v.IsListable) ∧ Unequal mixedItems ∧
    (∃ order : List Value, order.Perm mixedItems ∧
      (order.map fun v => v.literal .empty).Pairwise (· < ·)) ∧
    (ofList mixedAgain).toValue.literal .empty = (ofList mixedItems).toValue.literal .empty := by
  have hinfinity : (Number.float .infinity).IsMarked :=
    Number.isMarked_of_mem (c := 'i') (by decide) (by decide)
  have hinside : (Value.collection .valueSet [.str "a", .int 1]).IsListable :=
    .valueSet (by unfold Unequal; decide +kernel)
      (List.forall_mem_cons.2 ⟨.str "a", List.forall_mem_singleton.2 (.number trivial)⟩)
  have hlist : ∀ v ∈ mixedItems, v.IsListable :=
    List.forall_mem_cons.2 ⟨hinside, List.forall_mem_cons.2
      ⟨.number hinfinity, List.forall_mem_singleton.2 .absent⟩⟩
  have hunequal : Unequal mixedItems := by
    unfold Unequal
    decide +kernel
  have hincomparable : ¬ (ofList mixedItems).elements.Pairwise Value.Comparable := by
    have helements : (ofList mixedItems).elements = mixedItems := distinct_of_unequal hunequal
    rw [helements]
    intro h
    obtain ⟨b, hb⟩ := (List.pairwise_cons.1 h).1 _ List.mem_cons_self
    cases hb.before?_eq
  have hagain : Value.Refilled (.collection .valueSet [.str "a", .int 1])
      (.collection .valueSet [.int 1, .str "a"]) :=
    .valueSet (List.forall₂_same.2 fun v _ => .refl v) (.swap ..)
  obtain ⟨⟨order, hlisted, hperm⟩, hrefill⟩ := literal_ofList_canonical .empty hlist hunequal
  refine ⟨hlist, hunequal, ⟨order, hperm, hlisted.ascending_literals hincomparable⟩, ?_⟩
  refine hrefill [.collection .valueSet [.int 1, .str "a"], .number (.float .infinity), .absent]
    mixedAgain (.cons hagain (List.forall₂_same.2 fun v _ => .refl v)) ?_
  exact (List.Perm.swap ..).trans (.cons _ (.swap ..))

end ValueSet

end FeatureLattice
