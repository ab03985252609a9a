import FeatureLattice.Proofs.ValueOrder
import FeatureLattice.ValueSet

/-!
# How sets are listed

The literal form of a set lists its items in an order of its own: ascending if any two of them can
be compared, and by their literal forms otherwise. Unequal items that can be compared are a chain,
of which there is one ascending order only, and literal forms have one order in any case. So it does
not matter in which order a set was filled, nor, going up from the innermost sets, in which order
the sets inside it were. Frozen sets are not among the items: two of them neither of which includes
the other do not make sorting fail, and where they end up depends on more than their values.
-/
namespace FeatureLattice

namespace Value

variable {v w : Value} {xs ys : List Value}

/-- Listable values of which any two at different places are in order. -/
structure Chain (xs : List Value) : Prop where
  listable : ∀ v ∈ xs, v.IsListable
  inOrder : xs.Pairwise InOrder

theorem Chain.perm (h : Chain xs) (hperm : ys.Perm xs) : Chain ys where
  listable v hv := h.listable v (hperm.mem_iff.1 hv)
  inOrder := (hperm.pairwise_iff InOrder.symm).2 h.inOrder

theorem Chain.cases (h : Chain xs) (hv : v ∈ xs) (hw : w ∈ xs) : v = w ∨ InOrder v w := by
  have hor : xs.Pairwise fun v w => v = w ∨ InOrder v w := h.inOrder.imp .inr
  have hflip : xs.Pairwise (flip fun v w => v = w ∨ InOrder v w) :=
    h.inOrder.imp fun hvw => .inr hvw.symm
  exact List.Pairwise.forall_of_forall_of_flip (fun v _ => .inl rfl) hor hflip hv hw

/-- In a chain the test that sorts is a total order. -/
theorem Chain.notAfter_trans (h : Chain xs) {u : Value} (hu : u ∈ xs) (hv : v ∈ xs) (hw : w ∈ xs)
    (huv : notAfter u v = true) (hvw : notAfter v w = true) : notAfter u w = true := by
  have hlu := h.listable u hu
  have hlv := h.listable v hv
  have hlw := h.listable w hw
  rw [notAfter_iff hlv] at huv
  rw [notAfter_iff hlw] at hvw
  rcases h.cases hu hv with rfl | huv' | hvu
  · exact (notAfter_iff hlw).2 hvw
  · rcases h.cases hv hw with rfl | hvw' | hwv
    · exact (notAfter_iff hlv).2 huv
    · exact (notAfter_iff hlw).2 (Precedes.asymm hlu (huv'.trans hlu hlv hvw'))
    · exact absurd hwv hvw
  · exact absurd hvu huv

theorem Chain.notAfter_total (h : Chain xs) (hv : v ∈ xs) (hw : w ∈ xs) :
    (notAfter v w || notAfter w v) = true := by
  have hlv := h.listable v hv
  rw [Bool.or_eq_true, notAfter_iff (h.listable w hw), notAfter_iff hlv]
  by_cases hvw : Precedes v w
  · exact .inl (Precedes.asymm hlv hvw)
  · exact .inr hvw

/-- Sorting a chain puts it in strictly ascending order. -/
theorem Chain.pairwise_mergeSort (h : Chain xs) : (xs.mergeSort notAfter).Pairwise Precedes := by
  -- The test orders the members of the chain only, so they are sorted as a type of their own.
  let le : {v // v ∈ xs} → {v // v ∈ xs} → Bool := fun a b => notAfter a.1 b.1
  have hsame : ∀ a ∈ xs.attach, ∀ b ∈ xs.attach, le a b = notAfter a.1 b.1 := fun _ _ _ _ => rfl
  have hattach : (xs.attach.mergeSort le).map Subtype.val = xs.mergeSort notAfter := by
    rw [List.map_mergeSort hsame, List.attach_map_subtype_val]
  have htrans (a b c : {v // v ∈ xs}) (hab : le a b = true) (hbc : le b c = true) : le a c = true :=
    h.notAfter_trans a.2 b.2 c.2 hab hbc
  have htotal (a b : {v // v ∈ xs}) : (le a b || le b a) = true := h.notAfter_total a.2 b.2
  have hsorted : (xs.mergeSort notAfter).Pairwise fun v w => notAfter v w = true := by
    rw [← hattach, List.pairwise_map]
    exact List.pairwise_mergeSort htrans htotal xs.attach
  have hchain := h.perm (List.mergeSort_perm xs notAfter)
  refine (hsorted.and hchain.inOrder).imp_of_mem fun {v w} _ hw hvw => ?_
  exact hvw.2.resolve_right ((notAfter_iff (hchain.listable w hw)).1 hvw.1)

/-- A chain has one order only. -/
theorem Chain.mergeSort_perm (h : Chain xs) (hperm : ys.Perm xs) :
    ys.mergeSort notAfter = xs.mergeSort notAfter := by
  have hys := h.perm hperm
  have hsorted : (ys.mergeSort notAfter).Perm (xs.mergeSort notAfter) :=
    (List.mergeSort_perm ys notAfter).trans (hperm.trans (List.mergeSort_perm xs notAfter).symm)
  refine List.Perm.eq_of_pairwise (fun v w hv _ hvw hwv => ?_) hys.pairwise_mergeSort
    h.pairwise_mergeSort hsorted
  exact absurd hwv (Precedes.asymm (hys.listable v ((List.mergeSort_perm ys notAfter).mem_iff.1 hv)) hvw)

/-- Unequal values are a chain if any two of them can be compared. -/
theorem chain_iff (hlist : ∀ v ∈ xs, v.IsListable) (hunequal : Unequal xs) :
    Chain xs ↔ xs.Pairwise Comparable := by
  have hiff : xs.Pairwise InOrder ↔ xs.Pairwise Comparable := by
    constructor
    · exact fun h => (h.and hunequal).imp_of_mem fun hv hw hvw =>
        ((hlist _ hv).comparable_iff_inOrder (hlist _ hw) hvw.2).2 hvw.1
    · exact fun h => (h.and hunequal).imp_of_mem fun hv hw hvw =>
        ((hlist _ hv).comparable_iff_inOrder (hlist _ hw) hvw.2).1 hvw.1
  exact ⟨fun h => hiff.1 h.inOrder, fun h => ⟨hlist, hiff.2 h⟩⟩

theorem allComparable_iff : allComparable xs = true ↔
    xs.Pairwise fun v w => (before? v w).isSome = true := by
  induction xs with
  | nil => simp [allComparable]
  | cons v xs ih => rw [allComparable, Bool.and_eq_true, List.all_eq_true, ih, List.pairwise_cons]

theorem allComparable_iff_chain (hlist : ∀ v ∈ xs, v.IsListable) (hunequal : Unequal xs) :
    allComparable xs = true ↔ Chain xs := by
  rw [chain_iff hlist hunequal, allComparable_iff]
  exact List.Pairwise.iff_of_mem fun hv _ => (hlist _ hv).comparable_iff.symm

/-- Neighbours in order put a whole list in order. -/
theorem pairwise_precedes (hlist : ∀ v ∈ xs, v.IsListable) (h : xs.IsChain Precedes) :
    xs.Pairwise Precedes := by
  -- The order passes on between listable values, so these are kept beside it.
  let R : Value → Value → Prop := fun v w => (v.IsListable ∧ w.IsListable) ∧ Precedes v w
  have htrans : Trans R R R :=
    ⟨fun {u v w} huv hvw => ⟨⟨huv.1.1, hvw.1.2⟩, huv.2.trans huv.1.1 huv.1.2 hvw.2⟩⟩
  have hchain : xs.IsChain R :=
    h.imp_of_mem_imp fun v w hv hw hvw => ⟨⟨hlist v hv, hlist w hw⟩, hvw⟩
  exact hchain.pairwise.imp And.right

/-- Why a single pair decides how a list is sorted. A sort that does not fail has compared the
neighbours of its result and found them in order. Then any two of the values can be compared, so
with one pair that cannot be there is no such result. -/
theorem allComparable_iff_exists_ascending (hlist : ∀ v ∈ xs, v.IsListable)
    (hunequal : Unequal xs) :
    allComparable xs = true ↔ ∃ ys : List Value, ys.Perm xs ∧ ys.IsChain Precedes := by
  rw [allComparable_iff_chain hlist hunequal]
  constructor
  · intro h
    exact ⟨xs.mergeSort notAfter, List.mergeSort_perm .., h.pairwise_mergeSort.isChain⟩
  · rintro ⟨ys, hperm, hneighbours⟩
    have hlist' : ∀ v ∈ ys, v.IsListable := fun v hv => hlist v (hperm.mem_iff.1 hv)
    have hys : Chain ys := ⟨hlist', (pairwise_precedes hlist' hneighbours).imp .inl⟩
    exact hys.perm hperm.symm

/-- The items of a set in the order of listing. -/
def listing (nb : Notebook) (items : List Value) : List Value :=
  if allComparable items then items.mergeSort notAfter
  else items.mergeSort fun v w => v.literal nb ≤ w.literal nb

variable (nb : Notebook)

theorem listing_perm (items : List Value) : (listing nb items).Perm items := by
  unfold listing
  split <;> exact List.mergeSort_perm ..

/-- Values sorted by their literal forms have these sorted. -/
theorem map_literal_mergeSort (items : List Value) :
    (items.mergeSort fun v w => v.literal nb ≤ w.literal nb).map (fun v => v.literal nb) =
      (items.map fun v => v.literal nb).mergeSort (· ≤ ·) :=
  List.map_mergeSort fun _ _ _ _ => rfl

theorem zip_itemLiterals (items : List Value) :
    items.zip (itemLiterals nb items) = items.map fun v => (v, v.literal nb) := by
  induction items with
  | nil => rfl
  | cons v items ih => rw [itemLiterals, List.zip_cons_cons, ih, List.map_cons]

theorem arranged_map (items : List Value) :
    arranged (items.map fun v => (v, v.literal nb)) =
      (listing nb items).map fun v => (v, v.literal nb) := by
  have hvalues : (items.map fun v => (v, v.literal nb)).map Prod.fst = items := by
    simp [Function.comp_def]
  unfold arranged listing
  rw [hvalues]
  split
  · refine (List.map_mergeSort ?_).symm
    exact fun _ _ _ _ => rfl
  · refine (List.map_mergeSort ?_).symm
    exact fun _ _ _ _ => rfl

/-- The literal form of a set of values lists the literal forms of its items. -/
theorem literal_valueSet (items : List Value) :
    (collection .valueSet items).literal nb = if items = [] then "ValueSet()"
      else "ValueSet(\x7b" ++ listed ((listing nb items).map fun v => v.literal nb) ++ "\x7d)" := by
  rw [literal, zip_itemLiterals]
  cases items with
  | nil => rfl
  | cons v items =>
    have hopen : collectionLiteral .valueSet ((v :: items).map fun v => (v, v.literal nb)) =
        "ValueSet(" ++ ("\x7b" ++ listed ((arranged ((v :: items).map fun v =>
          (v, v.literal nb))).map Prod.snd) ++ "\x7d") ++ ")" := rfl
    have hbody (body : String) : "ValueSet(" ++ ("\x7b" ++ body ++ "\x7d") ++ ")" =
        "ValueSet(\x7b" ++ body ++ "\x7d)" := by
      apply String.toList_injective
      simp
    rw [hopen, arranged_map, List.map_map, if_neg (List.cons_ne_nil v items)]
    exact hbody _

/-- The literal forms that a set lists do not depend on the order of its items. -/
theorem map_literal_listing_perm (hlist : ∀ v ∈ xs, v.IsListable) (hunequal : Unequal xs)
    (hperm : ys.Perm xs) : (listing nb ys).map (fun v => v.literal nb) =
      (listing nb xs).map fun v => v.literal nb := by
  have hlist' : ∀ v ∈ ys, v.IsListable := fun v hv => hlist v (hperm.mem_iff.1 hv)
  have hunequal' : Unequal ys := hunequal.perm hperm
  have hchain : Chain ys ↔ Chain xs := ⟨fun h => h.perm hperm.symm, fun h => h.perm hperm⟩
  unfold listing
  by_cases h : Chain xs
  · rw [if_pos ((allComparable_iff_chain hlist hunequal).2 h),
      if_pos ((allComparable_iff_chain hlist' hunequal').2 (hchain.2 h)), h.mergeSort_perm hperm]
  · have hno := mt (allComparable_iff_chain hlist hunequal).1 h
    have hno' := mt (allComparable_iff_chain hlist' hunequal').1 (mt hchain.1 h)
    rw [if_neg hno, if_neg hno', map_literal_mergeSort, map_literal_mergeSort]
    refine List.Perm.eq_of_pairwise (fun a b _ _ => le_antisymm) List.sortedLE_mergeSort.pairwise
      List.sortedLE_mergeSort.pairwise ?_
    exact (List.mergeSort_perm ..).trans ((hperm.map _).trans (List.mergeSort_perm ..).symm)

/-- Items that are equal and look alike are listed at the same places. -/
theorem map_literal_listing_congr {pairs : List (Value × Value)}
    (hpairs : ∀ p ∈ pairs, p.1.IsListable ∧ p.2.IsListable ∧ same p.1 p.2 = true ∧
      p.1.literal nb = p.2.literal nb) :
    (listing nb (pairs.map Prod.fst)).map (fun v => v.literal nb) =
      (listing nb (pairs.map Prod.snd)).map fun v => v.literal nb := by
  have hbefore : ∀ p ∈ pairs, ∀ q ∈ pairs, before? p.1 q.1 = before? p.2 q.2 := by
    intro p hp q hq
    obtain ⟨hp₁, -, hp₂, -⟩ := hpairs p hp
    obtain ⟨hq₁, -, hq₂, -⟩ := hpairs q hq
    exact (hp₁.before?_congr hp₂ q.1).1.trans (hq₁.before?_congr hq₂ p.2).2
  have hforms {sorted : List (Value × Value)} (hperm : sorted.Perm pairs) :
      (sorted.map Prod.fst).map (fun v => v.literal nb) =
        (sorted.map Prod.snd).map fun v => v.literal nb := by
    rw [List.map_map, List.map_map]
    exact List.map_congr_left fun p hp => (hpairs p (hperm.mem_iff.1 hp)).2.2.2
  have hcomparable : allComparable (pairs.map Prod.fst) = allComparable (pairs.map Prod.snd) := by
    rw [Bool.eq_iff_iff, allComparable_iff, allComparable_iff, List.pairwise_map, List.pairwise_map]
    exact List.Pairwise.iff_of_mem fun hp hq => by rw [hbefore _ hp _ hq]
  unfold listing
  rw [← hcomparable]
  split
  · let le : Value × Value → Value × Value → Bool := fun p q => notAfter p.1 q.1
    have hle : ∀ p ∈ pairs, ∀ q ∈ pairs, le p q = notAfter p.2 q.2 := fun p hp q hq =>
      congrArg (· != some true) (hbefore q hq p hp)
    have hfst : (pairs.mergeSort le).map Prod.fst = (pairs.map Prod.fst).mergeSort notAfter :=
      List.map_mergeSort fun _ _ _ _ => rfl
    rw [← hfst, ← List.map_mergeSort hle]
    exact hforms (List.mergeSort_perm ..)
  · let le : Value × Value → Value × Value → Bool := fun p q => p.1.literal nb ≤ q.1.literal nb
    have hle : ∀ p ∈ pairs, ∀ q ∈ pairs, le p q = decide (p.2.literal nb ≤ q.2.literal nb) :=
      fun p hp q hq => by
        rw [← (hpairs p hp).2.2.2, ← (hpairs q hq).2.2.2]
    have hfst : (pairs.mergeSort le).map Prod.fst =
        (pairs.map Prod.fst).mergeSort fun v w => v.literal nb ≤ w.literal nb :=
      List.map_mergeSort fun _ _ _ _ => rfl
    have hsnd : (pairs.mergeSort le).map Prod.snd =
        (pairs.map Prod.snd).mergeSort fun v w => v.literal nb ≤ w.literal nb :=
      List.map_mergeSort hle
    rw [← hfst, ← hsnd]
    exact hforms (List.mergeSort_perm ..)

/-- A value whose sets, at whatever depth, have been filled in another order. -/
inductive Refilled : Value → Value → Prop
  | refl (v : Value) : Refilled v v
  | tuple {xs ys : List Value} : List.Forall₂ Refilled xs ys →
      Refilled (sequence .tuple xs) (sequence .tuple ys)
  | valueSet {xs ys zs : List Value} : List.Forall₂ Refilled xs ys → zs.Perm ys →
      Refilled (collection .valueSet xs) (collection .valueSet zs)

theorem forall₂_imp_of_mem {α : Type} {R S : α → α → Prop} {xs ys : List α}
    (h : List.Forall₂ R xs ys) (himp : ∀ x ∈ xs, ∀ y, R x y → S x y) : List.Forall₂ S xs ys := by
  induction h with
  | nil => exact .nil
  | @cons x y xs ys hxy _ ih =>
    exact .cons (himp x List.mem_cons_self y hxy)
      (ih fun z hz => himp z (List.mem_cons_of_mem x hz))

theorem exists_pairs_of_forall₂ {α : Type} {R : α → α → Prop} {xs ys : List α}
    (h : List.Forall₂ R xs ys) :
    ∃ pairs : List (α × α), pairs.map Prod.fst = xs ∧ pairs.map Prod.snd = ys ∧
      ∀ p ∈ pairs, R p.1 p.2 := by
  induction h with
  | nil => exact ⟨[], rfl, rfl, nofun⟩
  | @cons x y xs ys hxy _ ih =>
    obtain ⟨pairs, rfl, rfl, hpairs⟩ := ih
    exact ⟨(x, y) :: pairs, rfl, rfl, List.forall_mem_cons.2 ⟨hxy, hpairs⟩⟩

/-- What filling sets in another order does not change. -/
structure SameForm (nb : Notebook) (v w : Value) : Prop where
  isListable : w.IsListable
  same : same v w = true
  literal : v.literal nb = w.literal nb

theorem SameForm.tuple (h : List.Forall₂ (SameForm nb) xs ys) :
    SameForm nb (sequence .tuple xs) (sequence .tuple ys) where
  isListable := .tuple fun w hw =>
    (exists_of_forall₂_right h hw).elim fun _ hv => hv.2.isListable
  same := same_sequence_iff.2 ⟨rfl, by decide, h.imp fun _ _ hvw => hvw.same⟩
  literal := by
    have hitems : itemLiterals nb xs = itemLiterals nb ys := by
      induction h with
      | nil => rfl
      | cons hvw _ ih => rw [itemLiterals, itemLiterals, hvw.literal, ih]
    rw [Value.literal, Value.literal, hitems]

/-- Sets of items with the same forms, in whatever order, have the same form. -/
theorem SameForm.valueSet {zs : List Value} (hlist : ∀ v ∈ xs, v.IsListable) (hunequal : Unequal xs)
    (h : List.Forall₂ (SameForm nb) xs ys) (hperm : zs.Perm ys) :
    SameForm nb (collection .valueSet xs) (collection .valueSet zs) := by
  have hlist' : ∀ w ∈ ys, w.IsListable := fun w hw =>
    (exists_of_forall₂_right h hw).elim fun _ hv => hv.2.isListable
  have hunequal' : Unequal ys :=
    Unequal.of_forall₂ (h.flip.imp fun _ _ hvw => BEq.symm hvw.same) hunequal
  refine ⟨?_, ?_, ?_⟩
  · have hunequals : Unequal zs := hunequal'.perm hperm
    exact .valueSet hunequals fun w hw => hlist' w (hperm.mem_iff.1 hw)
  · refine same_collection_iff.2 ⟨rfl, fun v hv => ?_, fun w hw => ?_⟩
    · obtain ⟨w, hw, hvw⟩ := exists_of_forall₂_left h hv
      exact ⟨w, hperm.mem_iff.2 hw, hvw.same⟩
    · obtain ⟨v, hv, hvw⟩ := exists_of_forall₂_right h (hperm.mem_iff.1 hw)
      exact ⟨v, hv, hvw.same⟩
  · have hempty : xs = [] ↔ zs = [] := by
      rw [← List.length_eq_zero_iff, ← List.length_eq_zero_iff, hperm.length_eq, h.length_eq]
    have hforms : (listing nb xs).map (fun v => v.literal nb) =
        (listing nb zs).map fun v => v.literal nb := by
      obtain ⟨pairs, rfl, rfl, hpairs⟩ := exists_pairs_of_forall₂ h
      rw [map_literal_listing_perm nb hlist' hunequal' hperm]
      refine map_literal_listing_congr nb fun p hp => ?_
      have hp₁ := hlist p.1 (List.mem_map_of_mem hp)
      exact ⟨hp₁, (hpairs p hp).isListable, (hpairs p hp).same, (hpairs p hp).literal⟩
    rw [literal_valueSet, literal_valueSet, hforms]
    simp only [hempty]

theorem IsListable.sameForm (hv : v.IsListable) (h : Refilled v w) : SameForm nb v w := by
  have hrefl : ∀ {v : Value}, v.IsListable → SameForm nb v v := fun hv =>
    ⟨hv, hv.isElement.same_self, rfl⟩
  induction hv generalizing w with
  | tuple hitems ih =>
    cases h with
    | refl => exact hrefl (.tuple hitems)
    | tuple hrefilled =>
      exact .tuple nb (forall₂_imp_of_mem hrefilled fun v hv _ => ih v hv)
  | valueSet hunequal hitems ih =>
    cases h with
    | refl => exact hrefl (.valueSet hunequal hitems)
    | valueSet hrefilled hperm =>
      exact .valueSet nb hitems hunequal (forall₂_imp_of_mem hrefilled fun v hv _ => ih v hv) hperm
  | absent =>
    cases h
    exact hrefl .absent
  | number hn =>
    cases h
    exact hrefl (.number hn)
  | str s =>
    cases h
    exact hrefl (.str s)
  | bytes bs =>
    cases h
    exact hrefl (.bytes bs)
  | context c =>
    cases h
    exact hrefl (.context c)

end Value

end FeatureLattice
