import FeatureLattice.Proofs.SetEquality

/-!
# The algebra of sets of values

Sets of values obey the laws of a distributive lattice, and the sizes of a union and an
intersection add up to those of the operands. All this holds under the equality of sets, which does
not look at representatives. Which of two equal elements a result stores is another matter: a union
keeps the left ones, an intersection those of the smaller set and, of two sets of one size, the
right ones. So the operands of both operations can be told apart by the literal form of the result.
-/
namespace FeatureLattice

namespace ValueSet

variable {a b c : ValueSet} {v : Value}

/-- A union appends the elements of the right set that the left one lacks. -/
theorem elements_union (a b : ValueSet) :
    (a.union b).elements = a.elements ++ b.elements.filter fun v => !a.contains v :=
  foldl_addNew_eq_filter b.unequal a.elements

/-- An empty operand needs no case of its own: nothing is kept of it, or for it. -/
theorem elements_intersection (a b : ValueSet) :
    (a.intersection b).elements =
      if a.size < b.size then a.elements.filter b.contains else b.elements.filter a.contains := by
  unfold intersection
  by_cases hempty : (a.isEmpty || b.isEmpty) = true
  · rw [if_pos hempty]
    rcases Bool.or_eq_true_iff.1 hempty with h | h
    · have ha : a.elements = [] := List.isEmpty_iff.1 h
      have hnone : a.contains = fun _ => false := by
        funext v
        simp [contains, occursIn, ha]
      simp [empty, ha, hnone]
    · have hb : b.elements = [] := List.isEmpty_iff.1 h
      simp [empty, size, hb]
  · rw [if_neg hempty]
    split <;> rfl

theorem mem_union_iff :
    v ∈ (a.union b).elements ↔ v ∈ a.elements ∨ v ∈ b.elements ∧ a.contains v = false := by
  simp [elements_union]

theorem mem_intersection_iff :
    v ∈ (a.intersection b).elements ↔
      if a.size < b.size then v ∈ a.elements ∧ b.contains v = true
      else v ∈ b.elements ∧ a.contains v = true := by
  rw [elements_intersection]
  split <;> exact List.mem_filter

/-- Two sets have the same number of elements in common, from either side. -/
theorem length_filter_contains_comm (a b : ValueSet) :
    (a.elements.filter b.contains).length = (b.elements.filter a.contains).length := by
  have hle : ∀ a b : ValueSet,
      (a.elements.filter b.contains).length ≤ (b.elements.filter a.contains).length := by
    intro a b
    apply Unequal.length_le (a.unequal.filter _)
    intro v hv
    obtain ⟨hva, hvb⟩ := List.mem_filter.1 hv
    obtain ⟨w, hw, hwv⟩ := occursIn_iff.1 hvb
    have hwa : a.contains w = true := occursIn_iff.2 ⟨v, hva, BEq.symm hwv⟩
    exact occursIn_iff.2 ⟨w, List.mem_filter.2 ⟨hw, hwa⟩, hwv⟩
  exact Nat.le_antisymm (hle a b) (hle b a)

/-- Each element of the right set is either new in the union or in the intersection. -/
theorem size_union_add_size_intersection (a b : ValueSet) :
    (a.union b).size + (a.intersection b).size = a.size + b.size := by
  have hunion : (a.union b).size =
      a.size + (b.elements.filter fun v => !a.contains v).length := by
    simp [size, elements_union]
  have hinter : (a.intersection b).size = (b.elements.filter a.contains).length := by
    rw [size, elements_intersection]
    split
    · exact length_filter_contains_comm a b
    · rfl
  have hsplit : b.size = (b.elements.filter a.contains).length +
      (b.elements.filter fun v => !a.contains v).length :=
    List.length_eq_length_filter_add a.contains
  omega

theorem isElement_union (ha : ∀ v ∈ a.elements, v.IsElement) (hb : ∀ v ∈ b.elements, v.IsElement) :
    ∀ v ∈ (a.union b).elements, v.IsElement :=
  fun v hv => (mem_union_iff.1 hv).elim (ha v) fun h => hb v h.1

theorem isElement_intersection (ha : ∀ v ∈ a.elements, v.IsElement)
    (hb : ∀ v ∈ b.elements, v.IsElement) : ∀ v ∈ (a.intersection b).elements, v.IsElement :=
  fun v hv => (mem_intersection hv).elim (fun h => ha v h.1) fun h => hb v h.1

/-- Sets of elements with the same membership test are equal. -/
theorem beq_of_contains_eq (ha : ∀ v ∈ a.elements, v.IsElement)
    (hb : ∀ v ∈ b.elements, v.IsElement) (h : ∀ v, a.contains v = b.contains v) :
    (a == b) = true :=
  (beq_iff_contains (fun v hv => (ha v hv).same_self) fun v hv => (hb v hv).same_self).2 h

/-- A set is part of another if it has no value that the other lacks. -/
theorem isSubsetOf_iff (ha : ∀ v ∈ a.elements, v.IsElement) :
    a.isSubsetOf b = true ↔ ∀ v, a.contains v = true → b.contains v = true := by
  rw [isSubsetOf, List.all_eq_true]
  constructor
  · intro h v hv
    obtain ⟨w, hw, hwv⟩ := occursIn_iff.1 hv
    exact (occursIn_congr hwv b.elements).symm.trans (h w hw)
  · intro h v hv
    exact h v (occursIn_iff.2 ⟨v, hv, (ha v hv).same_self⟩)

/-- The laws of a distributive lattice at three sets, under the equality of sets. -/
structure LatticeLaws (a b c : ValueSet) : Prop where
  union_self : (a.union a == a) = true
  intersection_self : (a.intersection a == a) = true
  union_comm : (a.union b == b.union a) = true
  intersection_comm : (a.intersection b == b.intersection a) = true
  union_assoc : ((a.union b).union c == a.union (b.union c)) = true
  intersection_assoc : ((a.intersection b).intersection c == a.intersection (b.intersection c)) = true
  union_intersection_self : (a.union (a.intersection b) == a) = true
  intersection_union_self : (a.intersection (a.union b) == a) = true
  union_intersection :
    (a.union (b.intersection c) == (a.union b).intersection (a.union c)) = true
  intersection_union :
    (a.intersection (b.union c) == (a.intersection b).union (a.intersection c)) = true
  isSubsetOf_iff_union : a.isSubsetOf b = true ↔ (a.union b == b) = true
  isSubsetOf_iff_intersection : a.isSubsetOf b = true ↔ (a.intersection b == a) = true

/-- Each law is one of truth values, read off the membership tests. -/
theorem latticeLaws (ha : ∀ v ∈ a.elements, v.IsElement) (hb : ∀ v ∈ b.elements, v.IsElement)
    (hc : ∀ v ∈ c.elements, v.IsElement) : LatticeLaws a b c := by
  have hab := isElement_union ha hb
  have hba := isElement_union hb ha
  have hac := isElement_union ha hc
  have hbc := isElement_union hb hc
  have hab' := isElement_intersection ha hb
  have hac' := isElement_intersection ha hc
  have hbc' := isElement_intersection hb hc
  constructor
  case union_self =>
    apply beq_of_contains_eq (isElement_union ha ha) ha
    simp [contains_union]
  case intersection_self =>
    apply beq_of_contains_eq (isElement_intersection ha ha) ha
    simp [contains_intersection]
  case union_comm =>
    apply beq_of_contains_eq hab hba
    simp [contains_union, Bool.or_comm]
  case intersection_comm =>
    apply beq_of_contains_eq hab' (isElement_intersection hb ha)
    simp [contains_intersection, Bool.and_comm]
  case union_assoc =>
    apply beq_of_contains_eq (isElement_union hab hc) (isElement_union ha hbc)
    simp [contains_union, Bool.or_assoc]
  case intersection_assoc =>
    apply beq_of_contains_eq (isElement_intersection hab' hc) (isElement_intersection ha hbc')
    simp [contains_intersection, Bool.and_assoc]
  case union_intersection_self =>
    apply beq_of_contains_eq (isElement_union ha hab') ha
    intro v
    rw [contains_union, contains_intersection]
    cases a.contains v <;> simp
  case intersection_union_self =>
    apply beq_of_contains_eq (isElement_intersection ha hab) ha
    intro v
    rw [contains_intersection, contains_union]
    cases a.contains v <;> simp
  case union_intersection =>
    apply beq_of_contains_eq (isElement_union ha hbc') (isElement_intersection hab hac)
    simp [contains_union, contains_intersection, Bool.or_and_distrib_left]
  case intersection_union =>
    apply beq_of_contains_eq (isElement_intersection ha hbc) (isElement_union hab' hac')
    simp [contains_union, contains_intersection, Bool.and_or_distrib_left]
  case isSubsetOf_iff_union =>
    rw [isSubsetOf_iff ha]
    constructor
    · intro h
      apply beq_of_contains_eq hab hb
      intro v
      rw [contains_union]
      cases hv : a.contains v with
      | false => simp
      | true => simp [h v hv]
    · intro h v hv
      rw [← contains_congr h v, contains_union, hv, Bool.true_or]
  case isSubsetOf_iff_intersection =>
    rw [isSubsetOf_iff ha]
    constructor
    · intro h
      apply beq_of_contains_eq hab' ha
      intro v
      rw [contains_intersection]
      cases hv : a.contains v with
      | false => simp
      | true => simp [h v hv]
    · intro h v hv
      rw [← contains_congr h v, contains_intersection, Bool.and_eq_true] at hv
      exact hv.2

/-- The literal form of a set with one element. -/
theorem literal_ofList_singleton (nb : Notebook) (v : Value) :
    (ofList [v]).toValue.literal nb = "ValueSet(" ++ ("\x7b" ++ v.literal nb ++ "\x7d") ++ ")" := by
  have helements : (ofList [v]).elements = [v] := rfl
  simp [toValue, helements, Value.literal, Value.itemLiterals, Value.collectionLiteral,
    Value.arranged, listed]

/-- The truth value and the whole number 1 stand for one another in sets, but each set shows which
of them it stores. -/
theorem exists_literal_ne : ∃ a b : ValueSet,
    (∀ v ∈ a.elements, v.IsElement) ∧ (∀ v ∈ b.elements, v.IsElement) ∧
    ∀ nb, (a.union b).toValue.literal nb ≠ (b.union a).toValue.literal nb ∧
      (a.intersection b).toValue.literal nb ≠ (b.intersection a).toValue.literal nb := by
  have hone : ∀ n : Number, ∀ v ∈ (ofList [.number n]).elements, v.IsElement := by
    intro n v hv
    obtain rfl : v = .number n := List.mem_singleton.1 hv
    exact .number n
  refine ⟨ofList [.int 1], ofList [.bool true], hone _, hone _, fun nb => ?_⟩
  have hne : (ofList [.int 1]).toValue.literal nb ≠ (ofList [.bool true]).toValue.literal nb := by
    have hint : (Number.int 1).text = "1" := by decide +kernel
    have hbool : (Number.bool true).text = "True" := rfl
    rw [literal_ofList_singleton, literal_ofList_singleton, Value.literal, Value.literal, hint,
      hbool]
    decide
  exact ⟨hne, hne.symm⟩

/-- **Sets of values form a distributive lattice whose results store elements of the operands.** No
two elements of a set are equal, however it is filled. A value is in a union or an intersection as
it is in the operands. The lattice laws hold under the equality of sets, the order is the one that
they define, and the sizes of two sets add up to those of their union and intersection. A union
stores the left set and what it lacks, an intersection what is in the other set of the elements of
the smaller one, of the right one at equal sizes. So for some sets swapping the operands shows in
the literal forms of the results. -/
theorem algebra_of_representatives {a b c : ValueSet} (ha : ∀ v ∈ a.elements, v.IsElement)
    (hb : ∀ v ∈ b.elements, v.IsElement) (hc : ∀ v ∈ c.elements, v.IsElement) :
    ((∀ xs, Unequal (ofList xs).elements) ∧ Unequal (a.union b).elements ∧
      Unequal (a.intersection b).elements) ∧
    (∀ v, v.IsElement →
      (a.union b).lookup v = .ok (a.contains v || b.contains v) ∧
      (a.intersection b).lookup v = .ok (a.contains v && b.contains v) ∧
      a.lookup v = .ok (a.contains v) ∧ b.lookup v = .ok (b.contains v)) ∧
    LatticeLaws a b c ∧
    a.size + b.size = (a.union b).size + (a.intersection b).size ∧
    (∀ v, v ∈ (a.union b).elements ↔
      v ∈ a.elements ∨ v ∈ b.elements ∧ a.contains v = false) ∧
    (∀ v, v ∈ (a.intersection b).elements ↔
      if a.size < b.size then v ∈ a.elements ∧ b.contains v = true
      else v ∈ b.elements ∧ a.contains v = true) ∧
    ∃ s t : ValueSet, (∀ v ∈ s.elements, v.IsElement) ∧ (∀ v ∈ t.elements, v.IsElement) ∧
      ∀ nb, (s.union t).toValue.literal nb ≠ (t.union s).toValue.literal nb ∧
        (s.intersection t).toValue.literal nb ≠ (t.intersection s).toValue.literal nb := by
  refine ⟨⟨unequal_distinct, (a.union b).unequal, (a.intersection b).unequal⟩, fun v hv => ?_,
    latticeLaws ha hb hc, (size_union_add_size_intersection a b).symm, fun v => mem_union_iff,
    fun v => mem_intersection_iff, exists_literal_ne⟩
  rw [← contains_union, ← contains_intersection]
  exact ⟨lookup_eq hv _, lookup_eq hv _, lookup_eq hv a, lookup_eq hv b⟩

/-- A number and a text. -/
def oneAndText : ValueSet := ofList [.int 1, .str "a"]

/-- A truth value that equals the number. -/
def justTrue : ValueSet := ofList [.bool true]

/-- The truth value meets the whole number 1 of a larger set and stays, as the smaller set
has it. -/
theorem algebra_of_representatives_justTrue :
    (∀ v ∈ oneAndText.elements, v.IsElement) ∧ (∀ v ∈ justTrue.elements, v.IsElement) ∧
    .bool true ∈ (oneAndText.intersection justTrue).elements ∧
    (oneAndText.union justTrue).size = 2 ∧
    (justTrue.union (oneAndText.intersection justTrue) ==
      (justTrue.union oneAndText).intersection (justTrue.union justTrue)) = true := by
  have hone : ∀ v ∈ oneAndText.elements, v.IsElement :=
    isElement_of_mem_ofList (by simpa using ⟨.number _, .str _⟩)
  have htrue : ∀ v ∈ justTrue.elements, v.IsElement :=
    isElement_of_mem_ofList (by simpa using .number _)
  obtain ⟨-, -, -, hsize, -, hmem, -⟩ := algebra_of_representatives hone htrue htrue
  obtain ⟨-, -, hlaws, -⟩ := algebra_of_representatives htrue hone htrue
  refine ⟨hone, htrue, (hmem _).2 ?_, ?_, hlaws.union_intersection⟩
  · have hlarger : ¬ oneAndText.size < justTrue.size := by decide
    rw [if_neg hlarger]
    exact ⟨List.mem_singleton.2 rfl, rfl⟩
  · have hinter : (oneAndText.intersection justTrue).size = 1 := by decide +kernel
    have hsum : oneAndText.size + justTrue.size = 3 := rfl
    omega

end ValueSet

end FeatureLattice
