import FeatureLattice.Context.Construction
import FeatureLattice.Proofs.SetEquality
import FeatureLattice.Value.Order
import Mathlib.Data.List.Sort
import Mathlib.Data.String.Basic

/-!
# Sets of texts

The names of a context are read from a set of values, so what matters is whether all elements are
texts. Texts equal nothing but themselves, which makes such a set as simple as a set of names: its
elements are distinct, union and intersection stay within texts, a copy is the set itself, and any
two elements can be compared, so that sorting succeeds.
-/
namespace FeatureLattice

/-- The text that a value is, if it is one. -/
def Value.text? : Value → Option String
  | str x => some x
  | _ => none

theorem Value.text?_eq_some {v : Value} {x : String} : v.text? = some x ↔ v = str x := by
  cases v <;> simp [text?]

namespace ValueSet

variable {s t : ValueSet} {x : String}

/-- Every element is a text. -/
def AllTexts (s : ValueSet) : Prop := ∀ v ∈ s.elements, ∃ x, v = .str x

/-- The texts among the elements. -/
def texts (s : ValueSet) : List String := s.elements.filterMap Value.text?

theorem mem_texts : x ∈ s.texts ↔ Value.str x ∈ s.elements := by
  simp [texts, Value.text?_eq_some]

/-- A text equals no value but itself. -/
theorem contains_str_iff : s.contains (.str x) = true ↔ x ∈ s.texts := by
  rw [mem_texts]
  constructor
  · intro h
    obtain ⟨v, hv, hequal⟩ := occursIn_iff.1 h
    have hsame : v = .str x := by
      cases v <;> simp_all [BEq.beq, Value.same]
    exact hsame ▸ hv
  · exact fun h => occursIn_iff.2 ⟨.str x, h, (Value.IsElement.str x).same_self⟩

theorem AllTexts.isElement (h : s.AllTexts) : ∀ v ∈ s.elements, v.IsElement := by
  intro v hv
  obtain ⟨x, rfl⟩ := h v hv
  exact .str x

theorem AllTexts.nodup (h : s.AllTexts) : s.elements.Nodup :=
  s.unequal.imp_of_mem fun {v w} hv _ hne hvw => by
    subst hvw
    exact absurd (h.isElement v hv).same_self (ne_true_of_eq_false hne)

theorem AllTexts.elements_eq (h : s.AllTexts) : s.elements = s.texts.map Value.str := by
  have htexts : ∀ vs : List Value, (∀ v ∈ vs, ∃ x, v = .str x) →
      vs = (vs.filterMap Value.text?).map Value.str := by
    intro vs hvs
    induction vs with
    | nil => rfl
    | cons v vs ih =>
      obtain ⟨x, rfl⟩ := hvs v List.mem_cons_self
      exact congrArg (_ :: ·) (ih fun w hw => hvs w (List.mem_cons_of_mem _ hw))
  exact htexts s.elements h

theorem AllTexts.union (hs : s.AllTexts) (ht : t.AllTexts) : (s.union t).AllTexts :=
  fun v hv => (mem_of_mem_foldl_addNew hv).elim (hs v) (ht v)

theorem AllTexts.intersection (hs : s.AllTexts) (ht : t.AllTexts) :
    (s.intersection t).AllTexts :=
  fun v hv => (mem_intersection hv).elim (fun h => hs v h.1) fun h => ht v h.1

/-- A set of texts is part of another if its texts are there. -/
theorem AllTexts.isSubsetOf_iff (h : s.AllTexts) :
    s.isSubsetOf t = true ↔ ∀ x, s.contains (.str x) = true → t.contains (.str x) = true := by
  rw [isSubsetOf, List.all_eq_true]
  constructor
  · intro hsub x hx
    exact hsub (.str x) (mem_texts.1 (contains_str_iff.1 hx))
  · intro hsub v hv
    obtain ⟨x, rfl⟩ := h v hv
    exact hsub x (contains_str_iff.2 (mem_texts.2 hv))

/-- Sets of texts are equal if they contain the same texts. -/
theorem AllTexts.beq_iff (hs : s.AllTexts) (ht : t.AllTexts) :
    (s == t) = true ↔ ∀ x, s.contains (.str x) = t.contains (.str x) := by
  constructor
  · exact fun h x => contains_congr h (.str x)
  · intro h
    have hst : s.isSubsetOf t = true := hs.isSubsetOf_iff.2 fun x hx => h x ▸ hx
    have hts : t.isSubsetOf s = true := ht.isSubsetOf_iff.2 fun x hx => h x ▸ hx
    exact beq_of_contains (List.all_eq_true.1 hst) (List.all_eq_true.1 hts)

/-- A set read as a value is the set again. -/
theorem ofValue?_toValue (h : ∀ v ∈ s.elements, v.obstacle? = none) :
    ofValue? s.toValue = .ok s := by
  have hfree : Value.firstObstacle? s.elements = none := Value.firstObstacle?_eq_none h
  have hsame : ofList s.elements = s := by
    simp only [ofList, distinct_of_unequal s.unequal]
  simp only [ofValue?, toValue, Value.items?, hfree, hsame]

/-- A value that can be read as a set has no item that cannot be an element. -/
theorem obstacle?_of_ofValue? {v : Value} (h : ofValue? v = .ok s) :
    ∀ w ∈ s.elements, w.obstacle? = none := by
  unfold ofValue? at h
  split at h
  · cases h
  · split at h
    · cases h
    · rename_i hfree
      cases h
      exact fun w hw => Value.firstObstacle?_eq_none_iff.1 hfree w (mem_of_mem_distinct hw)

/-- The elements as names, or the first that is no text. -/
theorem names?_eq (s : ValueSet) :
    s.names? = match s.elements.find? fun v => v.text?.isNone with
      | none => .ok (NameSet.ofList s.texts)
      | some v => .error v := by
  suffices h : ∀ (vs : List Value) (names : NameSet),
      (vs.foldlM (fun names v =>
        match v with
        | .str x => .ok (names.insert x)
        | v => .error v) names : Except Value NameSet) =
      match vs.find? fun v => v.text?.isNone with
      | none => .ok ((vs.filterMap Value.text?).foldl NameSet.insert names)
      | some v => .error v from h s.elements NameSet.empty
  intro vs
  induction vs with
  | nil => exact fun _ => rfl
  | cons v vs ih =>
    intro names
    cases v with
    | str x => exact ih (names.insert x)
    | _ => rfl

theorem allTexts_of_find?_eq_none (h : (s.elements.find? fun v => v.text?.isNone) = none) :
    s.AllTexts := by
  intro v hv
  have hsome := List.find?_eq_none.1 h v hv
  obtain ⟨x, hx⟩ := Option.ne_none_iff_exists'.1 (mt Option.isNone_iff_eq_none.2 hsome)
  exact ⟨x, Value.text?_eq_some.1 hx⟩

/-- Either all elements are names, or one that is no text is found. -/
theorem names?_cases (s : ValueSet) :
    (s.AllTexts ∧ s.names? = .ok (NameSet.ofList s.texts)) ∨
      ∃ v ∈ s.elements, (∀ x, v ≠ .str x) ∧ s.names? = .error v := by
  rw [names?_eq]
  cases hfind : s.elements.find? fun v => v.text?.isNone with
  | none => exact .inl ⟨allTexts_of_find?_eq_none hfind, rfl⟩
  | some v =>
    have hnone : v.text?.isNone = true := List.find?_some (p := fun v : Value => v.text?.isNone) hfind
    refine .inr ⟨v, List.mem_of_find?_eq_some hfind, fun x hx => ?_, rfl⟩
    rw [hx] at hnone
    exact Bool.false_ne_true hnone

/-- Any two texts can be compared. -/
theorem AllTexts.allComparable (h : s.AllTexts) : Value.allComparable s.elements = true := by
  have hcomparable : ∀ xs : List String, Value.allComparable (xs.map Value.str) = true := by
    intro xs
    induction xs with
    | nil => rfl
    | cons x xs ih =>
      have hfirst : ∀ y ∈ xs.map Value.str, (Value.before? (.str x) y).isSome = true :=
        List.forall_mem_map.2 fun y _ => rfl
      rw [List.map_cons, Value.allComparable, List.all_eq_true.2 hfirst, ih, Bool.and_self]
  rw [h.elements_eq, hcomparable]

/-- Sorting puts texts as a set of names has them: distinct and ascending, there is but one way. -/
theorem AllTexts.mergeSort_eq (h : s.AllTexts) :
    s.elements.mergeSort Value.notAfter = (NameSet.ofList s.texts).names.map Value.str := by
  have hnodup : s.texts.Nodup := (h.elements_eq ▸ h.nodup).of_map _
  have hnames : s.texts.mergeSort (· ≤ ·) = (NameSet.ofList s.texts).names := by
    have hperm : (s.texts.mergeSort (· ≤ ·)).Perm s.texts := List.mergeSort_perm ..
    have hascending : (s.texts.mergeSort (· ≤ ·)).Pairwise (· < ·) :=
      (List.sortedLE_mergeSort.pairwise.and (hperm.nodup_iff.2 hnodup)).imp
        fun h => lt_of_le_of_ne h.1 h.2
    -- Of two strictly ascending lists with the same members there is only one.
    refine List.Pairwise.eq_of_mem_iff hascending (NameSet.ofList s.texts).ascending fun x => ?_
    rw [hperm.mem_iff, NameSet.mem_names, NameSet.mem_ofList]
  have horder : ∀ x y : String, decide (x ≤ y) = Value.notAfter (.str x) (.str y) := by
    intro x y
    have hbefore : Value.before? (.str y) (.str x) = some (decide (y < x)) := rfl
    rw [Value.notAfter, hbefore]
    by_cases h : x ≤ y
    · simp [h, not_lt.2 h]
    · simp [h, not_le.1 h]
  rw [h.elements_eq, ← hnames, List.map_mergeSort fun x _ y _ => horder x y]

/-- Texts are shared with a copy, so the copy is the set itself. -/
theorem AllTexts.copy_eq (h : s.AllTexts) (nb : Notebook) :
    s.toValue.copy nb = (s.toValue, nb) := by
  have hitems : ∀ xs : List String,
      Value.copyItems nb (xs.map Value.str) = (xs.map Value.str, nb) := by
    intro xs
    induction xs with
    | nil => rfl
    | cons x xs ih => simp [Value.copyItems, Value.copy, ih]
  have helements : Value.copyItems nb s.elements = (s.elements, nb) := by
    rw [h.elements_eq, hitems]
  rw [toValue, Value.copy_valueSet h.isElement s.unequal, helements]

end ValueSet

end FeatureLattice
