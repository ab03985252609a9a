import FeatureLattice.Proofs.CopiedNotes

/-!
# Operations on sets respect equality

A set of values is known by its membership test: sets are equal when each has the elements of the
other, and union and intersection act on membership as they should. So equal sets can stand for one
another, whichever representatives of equal values they hold, and a table with values as keys finds
the same place for equal keys.
-/
namespace FeatureLattice

namespace ValueSet

variable {a a' b b' : ValueSet} {v v' : Value} {xs ys : List Value}

theorem beq_iff :
    (a == b) = true ↔ (∀ v ∈ a.elements, ∃ w ∈ b.elements, (v == w) = true) ∧
      ∀ w ∈ b.elements, ∃ v ∈ a.elements, (v == w) = true := by
  change a.toValue.same b.toValue = true ↔ _
  rw [toValue, toValue, Value.same_collection_iff, CollectionForm.agrees_self, eq_self, true_and]
  rfl

theorem contains_ofList (xs : List Value) (v : Value) : (ofList xs).contains v = occursIn v xs :=
  occursIn_distinct

theorem contains_union (a b : ValueSet) (v : Value) :
    (a.union b).contains v = (a.contains v || b.contains v) :=
  occursIn_foldl_addNew

theorem contains_restrict (a b : ValueSet) (v : Value) :
    (a.restrict b).contains v = (a.contains v && b.contains v) := by
  have hother : ∀ x, (x == v) = true → b.contains x = b.contains v := fun x hx =>
    occursIn_congr hx b.elements
  rw [Bool.eq_iff_iff, Bool.and_eq_true]
  constructor
  · intro h
    obtain ⟨x, hx, hxv⟩ := occursIn_iff.1 h
    obtain ⟨hxa, hxb⟩ := List.mem_filter.1 hx
    exact ⟨occursIn_iff.2 ⟨x, hxa, hxv⟩, (hother x hxv).symm.trans hxb⟩
  · rintro ⟨ha, hb⟩
    obtain ⟨x, hx, hxv⟩ := occursIn_iff.1 ha
    have hxb : b.contains x = true := (hother x hxv).trans hb
    exact occursIn_iff.2 ⟨x, List.mem_filter.2 ⟨hx, hxb⟩, hxv⟩

theorem contains_intersection (a b : ValueSet) (v : Value) :
    (a.intersection b).contains v = (a.contains v && b.contains v) := by
  unfold intersection
  split
  · rename_i hempty
    have hnone : (a.contains v && b.contains v) = false := by
      rcases Bool.or_eq_true_iff.1 hempty with h | h <;>
        simp [contains, occursIn, List.isEmpty_iff.1 h]
    exact hnone.symm
  · split
    · exact contains_restrict a b v
    · rw [contains_restrict, Bool.and_comm]

/-- An element of a set occurs in each equal one. -/
theorem contains_of_mem (h : (a == a') = true) (hv : v ∈ a.elements) : a'.contains v = true := by
  obtain ⟨w, hw, hvw⟩ := (beq_iff.1 h).1 v hv
  exact occursIn_iff.2 ⟨w, hw, PartialEquivBEq.symm hvw⟩

/-- Sets are equal when each contains the elements of the other. -/
theorem beq_of_contains (hab : ∀ v ∈ a.elements, b.contains v = true)
    (hba : ∀ v ∈ b.elements, a.contains v = true) : (a == b) = true := by
  refine beq_iff.2 ⟨fun v hv => ?_, fun w hw => occursIn_iff.1 (hba w hw)⟩
  obtain ⟨w, hw, hwv⟩ := occursIn_iff.1 (hab v hv)
  exact ⟨w, hw, PartialEquivBEq.symm hwv⟩

theorem beq_symm (h : (a == b) = true) : (b == a) = true := Value.same_symm h

theorem contains_congr (h : (a == a') = true) (v : Value) : a.contains v = a'.contains v := by
  have hle : ∀ {a a' : ValueSet}, (a == a') = true → a.contains v = true →
      a'.contains v = true := by
    intro a a' h hv
    obtain ⟨x, hx, hxv⟩ := occursIn_iff.1 hv
    exact (occursIn_congr hxv a'.elements).symm.trans (contains_of_mem h hx)
  exact Bool.eq_iff_iff.2 ⟨hle h, hle (beq_symm h)⟩

/-- Equal sets are those that contain the same values. -/
theorem beq_iff_contains (ha : ∀ v ∈ a.elements, (v == v) = true)
    (hb : ∀ v ∈ b.elements, (v == v) = true) :
    (a == b) = true ↔ ∀ v, a.contains v = b.contains v := by
  constructor
  · exact contains_congr
  · intro h
    refine beq_of_contains (fun v hv => ?_) fun v hv => ?_
    · rw [← h v]
      exact occursIn_iff.2 ⟨v, hv, ha v hv⟩
    · rw [h v]
      exact occursIn_iff.2 ⟨v, hv, hb v hv⟩

/-- Lists with the same members, in any order and number, fill equal sets. -/
theorem ofList_congr (hxs : ∀ x ∈ xs, (x == x) = true) (h : ∀ x, x ∈ xs ↔ x ∈ ys) :
    (ofList xs == ofList ys) = true := by
  refine beq_of_contains (fun v hv => ?_) fun v hv => ?_
  · have hmem : v ∈ xs := mem_of_mem_distinct hv
    rw [contains_ofList]
    exact occursIn_iff.2 ⟨v, (h v).1 hmem, hxs v hmem⟩
  · have hmem : v ∈ xs := (h v).2 (mem_of_mem_distinct hv)
    rw [contains_ofList]
    exact occursIn_iff.2 ⟨v, hmem, hxs v hmem⟩

theorem isSubsetOf_congr (ha : (a == a') = true) (hb : (b == b') = true) :
    a.isSubsetOf b = a'.isSubsetOf b' := by
  have hle : ∀ {a a' b b' : ValueSet}, (a == a') = true → (b == b') = true →
      a.isSubsetOf b = true → a'.isSubsetOf b' = true := by
    intro a a' b b' ha hb hsubset
    refine List.all_eq_true.2 fun y hy => ?_
    obtain ⟨x, hx, hxy⟩ := (beq_iff.1 ha).2 y hy
    have hxb : b.contains x = true := List.all_eq_true.1 hsubset x hx
    rw [← contains_congr hb, ← hxb]
    exact (occursIn_congr hxy b.elements).symm
  exact Bool.eq_iff_iff.2 ⟨hle ha hb, hle (beq_symm ha) (beq_symm hb)⟩

/-- An operation respects equality if what it yields occurs in what it yields for equal sets. -/
theorem operation_congr {operation : ValueSet → ValueSet → ValueSet}
    (h : ∀ {a a' b b' : ValueSet}, (a == a') = true → (b == b') = true →
      ∀ v ∈ (operation a b).elements, (operation a' b').contains v = true)
    (ha : (a == a') = true) (hb : (b == b') = true) :
    (operation a b == operation a' b') = true :=
  beq_of_contains (h ha hb) (h (beq_symm ha) (beq_symm hb))

theorem union_congr (ha : (a == a') = true) (hb : (b == b') = true) :
    (a.union b == a'.union b') = true := by
  refine operation_congr (fun {a a' b b'} ha hb v hv => ?_) ha hb
  rw [contains_union, Bool.or_eq_true]
  exact (mem_of_mem_foldl_addNew hv).imp (contains_of_mem ha) (contains_of_mem hb)

/-- Every element of an intersection is one of the left or the right set. -/
theorem mem_intersection (hv : v ∈ (a.intersection b).elements) :
    (v ∈ a.elements ∧ b.contains v = true) ∨ (v ∈ b.elements ∧ a.contains v = true) := by
  unfold intersection at hv
  split at hv
  · exact absurd hv List.not_mem_nil
  · split at hv
    · exact .inl (List.mem_filter.1 hv)
    · exact .inr (List.mem_filter.1 hv)

theorem intersection_congr (ha : (a == a') = true) (hb : (b == b') = true) :
    (a.intersection b == a'.intersection b') = true := by
  refine operation_congr (fun {a a' b b'} ha hb v hv => ?_) ha hb
  rw [contains_intersection, Bool.and_eq_true]
  rcases mem_intersection hv with ⟨hmem, hother⟩ | ⟨hmem, hother⟩
  · exact ⟨contains_of_mem ha hmem, (contains_congr hb v).symm.trans hother⟩
  · exact ⟨(contains_congr ha v).symm.trans hother, contains_of_mem hb hmem⟩

/-- An element can be looked up. -/
theorem lookup_eq (hv : v.IsElement) (a : ValueSet) : a.lookup v = .ok (a.contains v) := by
  have hobstacle := hv.obstacle?_eq_none
  unfold lookup
  split
  · simp [Value.obstacle?] at hobstacle
  · rw [hobstacle]

end ValueSet

namespace Value

/-- Copies of equal values are equal, wherever their tags get pages. -/
theorem copy_congr {v w : Value} (h : (v == w) = true) (nb nb' : Notebook) :
    ((v.copy nb).1 == (w.copy nb').1) = true := by
  have hv : (v == v) = true := BEq.trans h (BEq.symm h)
  have hw : (w == w) = true := BEq.trans (BEq.symm h) h
  have hcopyv : ((v.copy nb).1 == v) = true := same_copy hv nb
  have hcopyw : ((w.copy nb').1 == w) = true := same_copy hw nb'
  exact BEq.trans hcopyv (BEq.trans h (BEq.symm hcopyw))

/-- The place of the first equal key, looked for among the keys before. -/
theorem findIdx?_eq_some_of_getElem? {keys : List Value} {i : Nat} {v w : Value}
    (hi : keys[i]? = some v) (hv : (v == v) = true) (hvw : (v == w) = true) :
    keys.findIdx? (· == w) = some (((keys.take i).findIdx? (· == v)).getD i) := by
  obtain ⟨hlt, hget⟩ := List.getElem?_eq_some_iff.1 hi
  have htest : (fun x => x == w) = fun x => x == v := funext fun x => (BEq.congr_right hvw).symm
  have hsplit : keys.take i ++ v :: keys.drop (i + 1) = keys := by
    rw [← hget, List.getElem_cons_drop, List.take_append_drop]
  have hlength : (keys.take i).length = i := List.length_take_of_le (Nat.le_of_lt hlt)
  calc keys.findIdx? (· == w) = (keys.take i ++ v :: keys.drop (i + 1)).findIdx? (· == v) := by
        rw [htest, hsplit]
    _ = ((keys.take i).findIdx? (· == v)).or (some i) := by
        rw [List.findIdx?_append, List.findIdx?_cons, hv, hlength]
        simp
    _ = some (((keys.take i).findIdx? (· == v)).getD i) := by
        cases (keys.take i).findIdx? (· == v) <;> rfl

/-- Each key gets the place where any equal key is found first. -/
theorem group_eq_ok {keys : List Value} (hkeys : ∀ v ∈ keys, v.IsElement) :
    ∃ places, group keys = .ok places ∧ places.length = keys.length ∧
      ∀ (i : Nat) (v w : Value), keys[i]? = some v → (v == w) = true →
        places[i]? = keys.findIdx? (· == w) := by
  have hfree : firstObstacle? keys = none :=
    firstObstacle?_eq_none fun v hv => (hkeys v hv).obstacle?_eq_none
  simp only [group, hfree]
  refine ⟨_, rfl, ?_, ?_⟩
  · rw [List.length_map, List.length_zipIdx]
  · intro i v w hi hvw
    have hv : (v == v) = true := BEq.trans hvw (BEq.symm hvw)
    rw [findIdx?_eq_some_of_getElem? hi hv hvw, List.getElem?_map, List.getElem?_zipIdx, hi]
    simp

/-- Lists of equal keys have the same first place for a value. -/
theorem findIdx?_congr {keys keys' : List Value}
    (h : List.Forall₂ (fun v v' => (v == v') = true) keys keys') (w : Value) :
    keys.findIdx? (· == w) = keys'.findIdx? (· == w) := by
  induction h with
  | nil => rfl
  | @cons v v' keys keys' hv _ ih =>
    have htest : (v == w) = (v' == w) := BEq.congr_left hv
    rw [List.findIdx?_cons, List.findIdx?_cons, htest, ih]

theorem group_congr {keys keys' : List Value} (hkeys : ∀ v ∈ keys, v.IsElement)
    (hkeys' : ∀ v ∈ keys', v.IsElement)
    (h : List.Forall₂ (fun v v' => (v == v') = true) keys keys') : group keys = group keys' := by
  obtain ⟨places, hgroup, hlength, hplaces⟩ := group_eq_ok hkeys
  obtain ⟨places', hgroup', hlength', hplaces'⟩ := group_eq_ok hkeys'
  suffices hsame : places = places' by rw [hgroup, hgroup', hsame]
  have hsize : keys.length = keys'.length := h.length_eq
  refine List.ext_getElem? fun i => ?_
  by_cases hi : i < keys.length
  · have hi' : i < keys'.length := hsize ▸ hi
    have hequal : (keys[i] == keys'[i]) = true := h.get hi hi'
    have hself : (keys'[i] == keys'[i]) = true := BEq.trans (BEq.symm hequal) hequal
    calc places[i]? = keys.findIdx? (· == keys'[i]) :=
          hplaces i keys[i] keys'[i] (List.getElem?_eq_getElem hi) hequal
      _ = keys'.findIdx? (· == keys'[i]) := findIdx?_congr h keys'[i]
      _ = places'[i]? :=
          (hplaces' i keys'[i] keys'[i] (List.getElem?_eq_getElem hi') hself).symm
  · rw [List.getElem?_eq_none (by omega), List.getElem?_eq_none (by omega)]

/-- **Equality is an equivalence, and every operation on sets respects it.** On the elements of sets
it is reflexive, symmetric and transitive. Numbers are compared by their exact values, sets by what
they contain, which is what equals a value they were filled with, so that order and number of these
values do not matter. Equal sets and values give equal answers, equal sets and, as keys, the place
of the first equal key. -/
theorem equality_respected :
    Equivalence (fun v w : {v : Value // v.IsElement} => (v.1 == w.1) = true) ∧
    (∀ m n : Number, (number m == number n) = true ↔ m.value = n.value) ∧
    (∀ a b : ValueSet, (∀ v ∈ a.elements, v.IsElement) → (∀ v ∈ b.elements, v.IsElement) →
      ((a == b) = true ↔ ∀ v, a.contains v = b.contains v)) ∧
    (∀ xs ys : List Value, (∀ x ∈ xs, x.IsElement) → (∀ x, x ∈ xs ↔ x ∈ ys) →
      (ValueSet.ofList xs == ValueSet.ofList ys) = true ∧
        ∀ v, (ValueSet.ofList xs).contains v = occursIn v xs ∧
          (ValueSet.ofList ys).contains v = occursIn v xs) ∧
    (∀ a a' b b' : ValueSet, (a == a') = true → (b == b') = true →
      (∀ v v' : Value, v.IsElement → v'.IsElement → (v == v') = true →
        a.lookup v = .ok (a.contains v) ∧ a'.lookup v' = .ok (a.contains v)) ∧
      a.isSubsetOf b = a'.isSubsetOf b' ∧
      (a.union b == a'.union b') = true ∧
      (a.intersection b == a'.intersection b') = true ∧
      ∀ nb nb' : Notebook, ((a.toValue.copy nb).1 == (a'.toValue.copy nb').1) = true) ∧
    ∀ keys keys' : List Value, (∀ v ∈ keys, v.IsElement) → (∀ v ∈ keys', v.IsElement) →
      List.Forall₂ (fun v v' => (v == v') = true) keys keys' →
      ∃ places, group keys = .ok places ∧ group keys' = .ok places ∧
        places.length = keys.length ∧
        ∀ (i : Nat) (v w : Value), keys[i]? = some v → (v == w) = true →
          places[i]? = keys.findIdx? (· == w) := by
  have hself : ∀ {xs : List Value}, (∀ x ∈ xs, x.IsElement) → ∀ x ∈ xs, (x == x) = true :=
    fun hxs x hx => (hxs x hx).same_self
  refine ⟨⟨fun v => v.2.same_self, fun h => same_symm h, fun h h' => same_trans h h'⟩,
    fun _ _ => Number.beq_iff, fun a b ha hb => ValueSet.beq_iff_contains (hself ha) (hself hb),
    ?_, ?_, ?_⟩
  · intro xs ys hxs hmembers
    have hequal := ValueSet.ofList_congr (hself hxs) hmembers
    refine ⟨hequal, fun v => ⟨ValueSet.contains_ofList xs v, ?_⟩⟩
    rw [← ValueSet.contains_congr hequal, ValueSet.contains_ofList]
  · intro a a' b b' ha hb
    refine ⟨fun v v' hv hv' hequal => ⟨ValueSet.lookup_eq hv a, ?_⟩,
      ValueSet.isSubsetOf_congr ha hb, ValueSet.union_congr ha hb,
      ValueSet.intersection_congr ha hb, copy_congr ha⟩
    have hcontains : a'.contains v' = a.contains v :=
      (occursIn_congr hequal a'.elements).symm.trans (ValueSet.contains_congr ha v).symm
    rw [ValueSet.lookup_eq hv', hcontains]
  · intro keys keys' hkeys hkeys' hequal
    obtain ⟨places, hgroup, hlength, hplaces⟩ := group_eq_ok hkeys
    exact ⟨places, hgroup, (group_congr hkeys hkeys' hequal) ▸ hgroup, hlength, hplaces⟩

/-- The whole number 1 and the truth value are one element and one key. -/
theorem equality_respected_one :
    (ValueSet.ofList [int 1, str "a"] == ValueSet.ofList [str "a", bool true]) = true ∧
    (ValueSet.ofList [int 1, str "a"]).lookup (bool true) = .ok true ∧
    ((ValueSet.ofList [int 1, str "a"]).union (.ofList [absent]) ==
      (ValueSet.ofList [str "a", bool true]).union (.ofList [absent])) = true ∧
    group [int 1, str "a", int 1] = group [bool true, str "a", int 1] := by
  obtain ⟨-, -, -, -, hsets, hgroup⟩ := equality_respected
  have hone : (ValueSet.ofList [int 1, str "a"] == ValueSet.ofList [str "a", bool true]) = true := by
    decide +kernel
  have habsent : (ValueSet.ofList [absent] == ValueSet.ofList [absent]) = true := by
    decide +kernel
  obtain ⟨hlookup, -, hunion, -, -⟩ := hsets _ _ _ _ hone habsent
  obtain ⟨hanswer, -⟩ := hlookup (bool true) (int 1) (.number _) (.number _) rfl
  obtain ⟨places, hplaces, hplaces', -, -⟩ := hgroup [int 1, str "a", int 1]
    [bool true, str "a", int 1]
    (by simpa using ⟨.number _, .str _, .number _⟩) (by simpa using ⟨.number _, .str _, .number _⟩)
    (.cons rfl (.cons rfl (.cons rfl .nil)))
  exact ⟨hone, hanswer, hunion, hplaces.trans hplaces'.symm⟩

end Value

end FeatureLattice
