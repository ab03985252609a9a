/-!
# Lists without repetition

Values are compared by a test that need not be equality of data, so removing repetitions chooses
representatives: the first of equal members stays, at its place. Nothing is assumed of the test.
-/
namespace FeatureLattice

variable {α : Type} [BEq α]

/-- Whether a list has a member equal to the given one. -/
def occursIn (x : α) (seen : List α) : Bool := seen.any (· == x)

/-- Append a value unless an equal one is there. -/
def addNew (seen : List α) (x : α) : List α := if occursIn x seen then seen else seen ++ [x]

/-- The first of each class of equal members, in order of appearance. -/
def distinct (xs : List α) : List α := xs.foldl addNew []

/-- No member equals a later one. -/
def Unequal (xs : List α) : Prop := xs.Pairwise fun a b => (a == b) = false

theorem Unequal.addNew {seen : List α} (h : Unequal seen) (x : α) :
    Unequal (addNew seen x) := by
  unfold FeatureLattice.addNew
  split
  · exact h
  · rename_i hx
    refine List.pairwise_append.2 ⟨h, List.pairwise_singleton _ _, fun a ha b hb => ?_⟩
    simp only [occursIn, List.any_eq_true, not_exists, not_and, Bool.not_eq_true] at hx
    exact List.mem_singleton.1 hb ▸ hx a ha

theorem Unequal.foldl_addNew {seen : List α} (h : Unequal seen) (xs : List α) :
    Unequal (xs.foldl FeatureLattice.addNew seen) := by
  induction xs generalizing seen with
  | nil => exact h
  | cons x xs ih => exact ih (h.addNew x)

theorem unequal_distinct (xs : List α) : Unequal (distinct xs) :=
  Unequal.foldl_addNew List.Pairwise.nil xs

theorem occursIn_iff {x : α} {seen : List α} :
    occursIn x seen = true ↔ ∃ y ∈ seen, (y == x) = true := List.any_eq_true

/-- Unequal members all stay. -/
theorem foldl_addNew_of_unequal {seen xs : List α} (h : Unequal (seen ++ xs)) :
    xs.foldl addNew seen = seen ++ xs := by
  induction xs generalizing seen with
  | nil => simp
  | cons x xs ih =>
    have hnew : occursIn x seen = false := by
      have hx := (List.pairwise_append.1 h).2.2
      simpa [occursIn] using fun y hy => hx y hy x List.mem_cons_self
    rw [List.append_cons] at h ⊢
    rw [List.foldl_cons, addNew, hnew]
    exact ih h

theorem distinct_of_unequal {xs : List α} (h : Unequal xs) : distinct xs = xs :=
  foldl_addNew_of_unequal h

/-- What stays was there. -/
theorem mem_of_mem_foldl_addNew {x : α} {seen xs : List α} (h : x ∈ xs.foldl addNew seen) :
    x ∈ seen ∨ x ∈ xs := by
  induction xs generalizing seen with
  | nil => exact .inl h
  | cons y xs ih =>
    rcases ih h with hx | hx
    · unfold addNew at hx
      split at hx
      · exact .inl hx
      · rcases List.mem_append.1 hx with hx | hx
        · exact .inl hx
        · exact .inr (List.mem_singleton.1 hx ▸ List.mem_cons_self)
    · exact .inr (List.mem_cons_of_mem y hx)

theorem mem_of_mem_distinct {x : α} {xs : List α} (h : x ∈ distinct xs) : x ∈ xs :=
  (mem_of_mem_foldl_addNew h).resolve_left List.not_mem_nil

/-- A map that keeps the test apart from its values keeps the choice of members. -/
theorem distinct_map {β : Type} [BEq β] {f : β → α} (hf : ∀ x y, (f x == f y) = (x == y))
    (xs : List β) : distinct (xs.map f) = (distinct xs).map f := by
  suffices h : ∀ seen : List β, (xs.map f).foldl addNew (seen.map f) =
      (xs.foldl addNew seen).map f from h []
  induction xs with
  | nil => exact fun _ => rfl
  | cons x xs ih =>
    intro seen
    have hstep : addNew (seen.map f) (f x) = (addNew seen x).map f := by
      have hocc : occursIn (f x) (seen.map f) = occursIn x seen := by
        simp [occursIn, List.any_map, Function.comp_def, hf]
      unfold addNew
      rw [hocc]
      split <;> simp
    rw [List.map_cons, List.foldl_cons, hstep, ih, List.foldl_cons]

section Equivalence

variable [PartialEquivBEq α] {x y : α} {seen xs : List α}

/-- Equal values occur in the same lists. -/
theorem occursIn_congr (h : (x == y) = true) (seen : List α) :
    occursIn x seen = occursIn y seen :=
  List.any_congr rfl fun _ => BEq.congr_right h

theorem occursIn_addNew : occursIn x (addNew seen y) = (occursIn x seen || y == x) := by
  unfold addNew
  split
  · rename_i hy
    cases hyx : y == x with
    | false => simp
    | true => simp [← occursIn_congr hyx, hy]
  · simp [occursIn]

/-- Going through a list, no class of equal members gets lost. -/
theorem occursIn_foldl_addNew :
    occursIn x (xs.foldl addNew seen) = (occursIn x seen || occursIn x xs) := by
  induction xs generalizing seen with
  | nil => simp [occursIn]
  | cons y xs ih =>
    rw [List.foldl_cons, ih, occursIn_addNew, Bool.or_assoc]
    rfl

theorem occursIn_distinct : occursIn x (distinct xs) = occursIn x xs := by
  rw [distinct, occursIn_foldl_addNew]
  rfl

/-- Unequal values need as many places to occur at. -/
theorem Unequal.length_le {ys : List α} (h : Unequal xs) (hys : ∀ x ∈ xs, occursIn x ys = true) :
    xs.length ≤ ys.length := by
  induction xs generalizing ys with
  | nil => simp
  | cons x xs ih =>
    obtain ⟨hx, hxs⟩ := List.pairwise_cons.1 h
    obtain ⟨y, hy, hyx⟩ := occursIn_iff.1 (hys x List.mem_cons_self)
    obtain ⟨before, after, rfl⟩ := List.append_of_mem hy
    -- The place of `x` is of no use to the others, so it can be left out.
    have hrest : ∀ z ∈ xs, occursIn z (before ++ after) = true := by
      intro z hz
      obtain ⟨w, hw, hwz⟩ := occursIn_iff.1 (hys z (List.mem_cons_of_mem x hz))
      have hwy : w ≠ y := by
        intro he
        have hxz : (x == z) = true := BEq.trans (BEq.symm hyx) (he ▸ hwz)
        simp [hx z hz] at hxz
      have hkept : w ∈ before ++ after := by
        simpa [hwy] using hw
      exact occursIn_iff.2 ⟨w, hkept, hwz⟩
    have hlength := ih hxs hrest
    simp only [List.length_append, List.length_cons] at hlength ⊢
    omega

/-- In another order the values are still unequal. -/
theorem Unequal.perm {ys : List α} (h : Unequal xs) (hperm : ys.Perm xs) : Unequal ys :=
  (hperm.pairwise_iff fun h => BEq.comm.trans h).2 h

end Equivalence

/-- Going through a list appends to what was seen the first members that equal nothing there. -/
theorem foldl_addNew_eq (seen xs : List α) :
    xs.foldl addNew seen =
      seen ++ (xs.filter fun x => !occursIn x seen).eraseDupsBy fun x kept => kept == x := by
  induction xs generalizing seen with
  | nil => simp
  | cons x xs ih =>
    rw [List.foldl_cons, ih]
    cases hx : occursIn x seen with
    | true => simp [addNew, hx]
    | false =>
      have hnew : addNew seen x = seen ++ [x] := by simp [addNew, hx]
      have hfilter : (xs.filter fun y => !occursIn y (seen ++ [x])) =
          (xs.filter fun y => !occursIn y seen).filter fun y => decide ((x == y) = false) := by
        rw [List.filter_filter]
        refine List.filter_congr fun y _ => ?_
        cases h : x == y <;> simp [occursIn, h]
      rw [hnew, hfilter, List.filter_cons_of_pos (by simp [hx]), List.eraseDupsBy_cons,
        List.append_assoc, List.singleton_append]

/-- Every member is there in the end, or an equal one is. -/
theorem mem_or_occursIn_distinct {x : α} {xs : List α} (h : x ∈ xs) :
    x ∈ distinct xs ∨ occursIn x (distinct xs) = true := by
  obtain ⟨seen, rest, rfl⟩ := List.append_of_mem h
  rw [distinct, List.foldl_append, List.foldl_cons, foldl_addNew_eq]
  unfold addNew
  split
  · rename_i hx
    obtain ⟨y, hy, hyx⟩ := occursIn_iff.1 hx
    exact .inr (occursIn_iff.2 ⟨y, List.mem_append_left _ hy, hyx⟩)
  · exact .inl (by simp)

theorem distinct_eq_eraseDupsBy (xs : List α) :
    distinct xs = xs.eraseDupsBy fun x kept => kept == x := by
  rw [distinct, foldl_addNew_eq, List.nil_append]
  exact congrArg _ (List.filter_eq_self.2 fun _ _ => rfl)

/-- If the test is symmetric, the first of equal members stay as when duplicates are erased. -/
theorem distinct_eq_eraseDups [PartialEquivBEq α] (xs : List α) : distinct xs = xs.eraseDups := by
  have hsymm : (fun x kept : α => kept == x) = fun x kept => x == kept :=
    funext fun x => funext fun kept => BEq.comm
  rw [distinct_eq_eraseDupsBy, hsymm, List.eraseDups]

/-- Of unequal values those are appended that equal nothing there. -/
theorem foldl_addNew_eq_filter {xs : List α} (h : Unequal xs) (seen : List α) :
    xs.foldl addNew seen = seen ++ xs.filter fun x => !occursIn x seen := by
  have hkept : Unequal (xs.filter fun x => !occursIn x seen) := h.filter _
  rw [foldl_addNew_eq, ← distinct_eq_eraseDupsBy, distinct_of_unequal hkept]

end FeatureLattice
