import FeatureLattice.Value
import Mathlib.Data.List.Forall2

/-!
# Equality of values

Equality of values looks through sequences item by item and through collections by inclusion both
ways, so it is defined along the nesting of values and its laws are proved along it. It is symmetric
and transitive on all values. It is reflexive on the elements of sets, which are built from plain
values, texts, contexts and tags by tuples and by sets that cannot change; an iterator does not even
equal itself.
-/
namespace FeatureLattice

section ItemByItem

variable {α β : Type} {xs : List α} {ys : List β}

theorem exists_of_forall₂_left {R : α → β → Prop} (h : List.Forall₂ R xs ys) {x : α} (hx : x ∈ xs) :
    ∃ y ∈ ys, R x y := by
  induction h with
  | nil => simp at hx
  | @cons x' y xs ys hxy _ ih =>
    rcases List.mem_cons.1 hx with rfl | hx
    · exact ⟨y, List.mem_cons_self, hxy⟩
    · obtain ⟨z, hz, hxz⟩ := ih hx
      exact ⟨z, List.mem_cons_of_mem y hz, hxz⟩

theorem exists_of_forall₂_right {R : α → β → Prop} (h : List.Forall₂ R xs ys) {y : β}
    (hy : y ∈ ys) : ∃ x ∈ xs, R x y :=
  exists_of_forall₂_left h.flip hy

/-- Lists that are equal item by item repeat their items alike. -/
theorem Unequal.of_forall₂ [BEq α] [PartialEquivBEq α] {zs : List α}
    (h : List.Forall₂ (fun x z => (x == z) = true) xs zs) (hzs : Unequal zs) : Unequal xs := by
  induction h with
  | nil => exact List.Pairwise.nil
  | @cons x z xs zs hxz hrest ih =>
    obtain ⟨hz, hzs⟩ := List.pairwise_cons.1 hzs
    refine List.pairwise_cons.2 ⟨fun a ha => ?_, ih hzs⟩
    obtain ⟨c, hc, hac⟩ := exists_of_forall₂_left hrest ha
    rw [BEq.congr_left hxz, BEq.congr_right hac]
    exact hz c hc

end ItemByItem

namespace CollectionForm

theorem agrees_symm {f g : CollectionForm} (h : f.agrees g = true) : g.agrees f = true := by
  cases f <;> cases g <;> simp_all [agrees]

theorem agrees_trans {f g k : CollectionForm} (hfg : f.agrees g = true) (hgk : g.agrees k = true) :
    f.agrees k = true := by
  cases f <;> cases g <;> cases k <;> simp_all [agrees]

@[simp] theorem agrees_self (f : CollectionForm) : f.agrees f = true := by
  simp [agrees]

end CollectionForm

namespace Value

/-- Induction on values: of the items of a sequence or a collection the statement is known. -/
@[elab_as_elim, induction_eliminator]
theorem itemInduction {motive : Value → Prop} (absent : motive absent)
    (number : ∀ n, motive (number n)) (str : ∀ s, motive (str s))
    (bytes : ∀ bs, motive (bytes bs)) (context : ∀ c, motive (context c))
    (kind : ∀ k, motive (kind k)) (lattice : ∀ l, motive (lattice l)) (tag : ∀ t, motive (tag t))
    (sequence : ∀ form items, (∀ v ∈ items, motive v) → motive (sequence form items))
    (collection : ∀ form items, (∀ v ∈ items, motive v) → motive (collection form items)) :
    ∀ v, motive v
  | .absent => absent
  | .number n => number n
  | .str s => str s
  | .bytes bs => bytes bs
  | .context c => context c
  | .kind k => kind k
  | .lattice l => lattice l
  | .tag t => tag t
  | .sequence form items => sequence form items fun v _ =>
    itemInduction absent number str bytes context kind lattice tag sequence collection v
  | .collection form items => collection form items fun v _ =>
    itemInduction absent number str bytes context kind lattice tag sequence collection v

variable {u v w : Value} {xs ys : List Value}

theorem sameItems_iff :
    sameItems xs ys = true ↔ List.Forall₂ (fun x y => same x y = true) xs ys := by
  induction xs generalizing ys with
  | nil => cases ys <;> simp [sameItems]
  | cons x xs ih => cases ys <;> simp [sameItems, ih]

theorem includedIn_iff :
    includedIn xs ys = true ↔ ∀ x ∈ xs, ∃ y ∈ ys, same x y = true := by
  induction xs with
  | nil => simp [includedIn]
  | cons x xs ih => simp [includedIn, ih]

theorem covers_iff : covers xs v = true ↔ ∃ x ∈ xs, same x v = true := by
  induction xs with
  | nil => simp [covers]
  | cons x xs ih => simp [covers, ih]

theorem same_sequence_iff {f g : SequenceForm} :
    same (sequence f xs) (sequence g ys) = true ↔
      f = g ∧ f ≠ .iterator ∧ List.Forall₂ (fun x y => same x y = true) xs ys := by
  simp [same, sameItems_iff, and_assoc]

/-- Collections of kinds that agree are equal when each item of one has an equal in the other. -/
theorem same_collection_iff {f g : CollectionForm} :
    same (collection f xs) (collection g ys) = true ↔
      f.agrees g = true ∧ (∀ x ∈ xs, ∃ y ∈ ys, same x y = true) ∧
        ∀ y ∈ ys, ∃ x ∈ xs, same x y = true := by
  simp [same, includedIn_iff, covers_iff, and_assoc]

theorem forall₂_same_symm (hsymm : ∀ x ∈ xs, ∀ y, same x y = true → same y x = true)
    (h : List.Forall₂ (fun x y => same x y = true) xs ys) :
    List.Forall₂ (fun x y => same x y = true) ys xs := by
  induction h with
  | nil => exact .nil
  | @cons x y xs ys hxy _ ih =>
    exact .cons (hsymm x List.mem_cons_self y hxy)
      (ih fun z hz => hsymm z (List.mem_cons_of_mem x hz))

theorem same_symm (h : same v w = true) : same w v = true := by
  induction v generalizing w with
  | number a =>
    cases w with
    | number b => exact Number.beq_iff.2 (Number.beq_iff.1 h).symm
    | _ => simp [same] at h
  | sequence f xs ih =>
    cases w with
    | sequence g ys =>
      obtain ⟨rfl, hform, hitems⟩ := same_sequence_iff.1 h
      exact same_sequence_iff.2 ⟨rfl, hform, forall₂_same_symm (fun x hx _ => ih x hx) hitems⟩
    | _ => simp [same] at h
  | collection f xs ih =>
    cases w with
    | collection g ys =>
      obtain ⟨hform, hxs, hys⟩ := same_collection_iff.1 h
      refine same_collection_iff.2
        ⟨CollectionForm.agrees_symm hform, fun y hy => ?_, fun x hx => ?_⟩
      · obtain ⟨x, hx, hxy⟩ := hys y hy
        exact ⟨x, hx, ih x hx hxy⟩
      · obtain ⟨y, hy, hxy⟩ := hxs x hx
        exact ⟨y, hy, ih x hx hxy⟩
    | _ => simp [same] at h
  | _ => cases w <;> simp_all [same]

theorem forall₂_same_trans {zs : List Value}
    (htrans : ∀ x ∈ xs, ∀ y z, same x y = true → same y z = true → same x z = true)
    (hxy : List.Forall₂ (fun x y => same x y = true) xs ys)
    (hyz : List.Forall₂ (fun x y => same x y = true) ys zs) :
    List.Forall₂ (fun x y => same x y = true) xs zs := by
  induction hxy generalizing zs with
  | nil =>
    cases hyz
    exact .nil
  | @cons x y xs ys hxy _ ih =>
    cases hyz with
    | @cons _ z _ zs hyz hrest =>
      exact .cons (htrans x List.mem_cons_self y z hxy hyz)
        (ih (fun a ha => htrans a (List.mem_cons_of_mem x ha)) hrest)

theorem same_trans (huv : same u v = true) (hvw : same v w = true) : same u w = true := by
  induction u generalizing v w with
  | number a =>
    cases v with
    | number b =>
      cases w with
      | number c => exact Number.beq_iff.2 ((Number.beq_iff.1 huv).trans (Number.beq_iff.1 hvw))
      | _ => simp [same] at hvw
    | _ => simp [same] at huv
  | sequence f xs ih =>
    cases v with
    | sequence g ys =>
      cases w with
      | sequence k zs =>
        obtain ⟨rfl, hform, hxy⟩ := same_sequence_iff.1 huv
        obtain ⟨rfl, -, hyz⟩ := same_sequence_iff.1 hvw
        exact same_sequence_iff.2
          ⟨rfl, hform, forall₂_same_trans (fun x hx _ _ => ih x hx) hxy hyz⟩
      | _ => simp [same] at hvw
    | _ => simp [same] at huv
  | collection f xs ih =>
    cases v with
    | collection g ys =>
      cases w with
      | collection k zs =>
        obtain ⟨hfg, hxs, hys⟩ := same_collection_iff.1 huv
        obtain ⟨hgk, hys', hzs⟩ := same_collection_iff.1 hvw
        refine same_collection_iff.2
          ⟨CollectionForm.agrees_trans hfg hgk, fun x hx => ?_, fun z hz => ?_⟩
        · obtain ⟨y, hy, hxy⟩ := hxs x hx
          obtain ⟨z, hz, hyz⟩ := hys' y hy
          exact ⟨z, hz, ih x hx hxy hyz⟩
        · obtain ⟨y, hy, hyz⟩ := hzs z hz
          obtain ⟨x, hx, hxy⟩ := hys y hy
          exact ⟨x, hx, ih x hx hxy hyz⟩
      | _ => simp [same] at hvw
    | _ => simp [same] at huv
  | _ => cases v <;> cases w <;> simp_all [same]

instance : PartialEquivBEq Value where
  symm := same_symm
  trans := same_trans

/-- The values that are elements of sets: plain values, texts, contexts and tags, and what tuples
and unchangeable sets make of elements. The items of a set are unequal. -/
inductive IsElement : Value → Prop
  | absent : IsElement absent
  | number (n : Number) : IsElement (number n)
  | str (s : String) : IsElement (str s)
  | bytes (bs : List UInt8) : IsElement (bytes bs)
  | context (c : Context) : IsElement (context c)
  | tag (t : Tag) : IsElement (tag t)
  | tuple {items : List Value} : (∀ v ∈ items, IsElement v) → IsElement (sequence .tuple items)
  | collection {form : CollectionForm} {items : List Value} : form ≠ .set → Unequal items →
      (∀ v ∈ items, IsElement v) → IsElement (collection form items)

/-- An element equals itself. -/
theorem IsElement.same_self (h : IsElement v) : same v v = true := by
  induction h with
  | number n => exact Number.beq_iff.2 rfl
  | @tuple items _ ih =>
    exact same_sequence_iff.2 ⟨rfl, by decide, List.forall₂_same.2 ih⟩
  | @collection form items _ _ _ ih =>
    exact same_collection_iff.2
      ⟨CollectionForm.agrees_self form, fun x hx => ⟨x, hx, ih x hx⟩, fun x hx => ⟨x, hx, ih x hx⟩⟩
  | _ => simp [same]

/-- Nothing keeps an element out of a set. -/
theorem IsElement.obstacle?_eq_none (h : IsElement v) : obstacle? v = none := by
  induction h with
  | @tuple items _ ih =>
    have hitems : firstObstacle? items = none := firstObstacle?_eq_none ih
    rw [obstacle?, hitems]
  | @collection form items hform _ _ _ => cases form <;> simp_all [obstacle?]
  | _ => rfl

end Value

end FeatureLattice
