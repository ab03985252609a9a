import FeatureLattice.Proofs.NumberOrder
import FeatureLattice.Proofs.NumberTexts
import FeatureLattice.Proofs.ValueEquality
import FeatureLattice.Value.Order
import Mathlib.Data.List.Sort
import Mathlib.Data.String.Basic

/-!
# The order of values

Comparing two values has an answer only if they are of one kind that has an order, and if tuples
have such values at the first place where they differ. Where there are answers, they are those of a
strict order: of unequal values one comes before the other, the order passes on, and equal values
compare alike. Sets of values have no order, but they may stand in tuples where the comparison does
not depend on them.
-/
namespace FeatureLattice

namespace Value

/-- The values whose listing in a set is settled by their order and literal forms: plain values,
texts and contexts, and what tuples and sets of values make of them. The items of a set are
unequal. -/
inductive IsListable : Value → Prop
  | absent : IsListable absent
  | number {n : Number} : n.IsMarked → IsListable (number n)
  | str (s : String) : IsListable (str s)
  | bytes (bs : List UInt8) : IsListable (bytes bs)
  | context (c : Context) : IsListable (context c)
  | tuple {items : List Value} : (∀ v ∈ items, IsListable v) → IsListable (sequence .tuple items)
  | valueSet {items : List Value} : Unequal items → (∀ v ∈ items, IsListable v) →
      IsListable (collection .valueSet items)

/-- What comparing two values answers, if it answers: whether the first comes before the second.
Tuples with items that are equal up to a place are decided at that place. -/
inductive Compares : Value → Value → Bool → Prop
  | number (a b : Number) : Compares (number a) (number b) (decide (a.value < b.value))
  | str (s t : String) : Compares (str s) (str t) (decide (s < t))
  | bytes (as bs : List UInt8) : Compares (bytes as) (bytes bs) (decide (as < bs))
  | tuple {xs ys xs' ys' : List Value} {x y : Value} {b : Bool} :
      List.Forall₂ (fun x y => same x y = true) xs ys → same x y = false → Compares x y b →
      Compares (sequence .tuple (xs ++ x :: xs')) (sequence .tuple (ys ++ y :: ys')) b
  | within {xs ys : List Value} (ys' : List Value) :
      List.Forall₂ (fun x y => same x y = true) xs ys →
      Compares (sequence .tuple xs) (sequence .tuple (ys ++ ys')) (!ys'.isEmpty)
  | beyond {xs ys : List Value} (x : Value) (xs' : List Value) :
      List.Forall₂ (fun x y => same x y = true) xs ys →
      Compares (sequence .tuple (xs ++ x :: xs')) (sequence .tuple ys) false

/-- Comparing two values has an answer. -/
def Comparable (v w : Value) : Prop := ∃ b, Compares v w b

/-- The first value comes before the second. -/
def Precedes (v w : Value) : Prop := Compares v w true

variable {u v w : Value} {xs ys : List Value}

theorem IsListable.isElement (h : v.IsListable) : v.IsElement := by
  induction h with
  | absent => exact .absent
  | @number n _ => exact .number n
  | str s => exact .str s
  | bytes bs => exact .bytes bs
  | context c => exact .context c
  | tuple _ ih => exact .tuple ih
  | valueSet hunequal _ ih => exact .collection (by decide) hunequal ih

/-- How two values meet in a comparison: they are of one kind that has an order, or comparing them
has no answer, either way. -/
inductive Meeting : Value → Value → Prop
  | numbers (a b : Number) : Meeting (number a) (number b)
  | texts (s t : String) : Meeting (str s) (str t)
  | byteStrings (as bs : List UInt8) : Meeting (bytes as) (bytes bs)
  | tuples (xs ys : List Value) : Meeting (sequence .tuple xs) (sequence .tuple ys)
  | apart {v w : Value} : before? v w = none → before? w v = none → Meeting v w

theorem IsListable.meeting (hv : v.IsListable) (w : Value) : Meeting v w := by
  cases hv with
  | @number a _ =>
    cases w with
    | number b => exact .numbers a b
    | sequence form _ => cases form <;> exact .apart rfl rfl
    | collection form _ => cases form <;> exact .apart rfl rfl
    | _ => exact .apart rfl rfl
  | str s =>
    cases w with
    | str t => exact .texts s t
    | sequence form _ => cases form <;> exact .apart rfl rfl
    | collection form _ => cases form <;> exact .apart rfl rfl
    | _ => exact .apart rfl rfl
  | bytes as =>
    cases w with
    | bytes bs => exact .byteStrings as bs
    | sequence form _ => cases form <;> exact .apart rfl rfl
    | collection form _ => cases form <;> exact .apart rfl rfl
    | _ => exact .apart rfl rfl
  | @tuple xs _ =>
    cases w with
    | sequence form ys =>
      cases form with
      | tuple => exact .tuples xs ys
      | _ => exact .apart rfl rfl
    | collection form _ => cases form <;> exact .apart rfl rfl
    | _ => exact .apart rfl rfl
  | _ =>
    cases w with
    | sequence form _ => cases form <;> exact .apart rfl rfl
    | collection form _ => cases form <;> exact .apart rfl rfl
    | _ => exact .apart rfl rfl

theorem same_tuple (xs ys : List Value) :
    same (sequence .tuple xs) (sequence .tuple ys) = sameItems xs ys := by
  simp [same]

theorem IsListable.items (h : (sequence .tuple xs).IsListable) : ∀ v ∈ xs, v.IsListable := by
  cases h with
  | tuple hitems => exact hitems

/-- Of two different things in a strict order without ties one comes first. -/
theorem decide_lt_swap {α : Type} [LT α] [DecidableLT α] [Std.Asymm (α := α) (· < ·)]
    [Std.Trichotomous (α := α) (· < ·)] {a b : α} (h : a ≠ b) :
    decide (b < a) = !decide (a < b) := by
  rw [← decide_not, decide_eq_decide]
  constructor
  · exact fun hba hab => Std.Asymm.asymm a b hab hba
  · exact fun hab => by_contra fun hba => h (Std.Trichotomous.trichotomous a b hab hba)

theorem before?_number (a b : Number) :
    before? (number a) (number b) = some (decide (a.value < b.value)) :=
  congrArg some Bool.decide_eq_true.symm

/-- The comparison of tuples, turned around item by item. -/
theorem itemsBefore?_swap
    (hswap : ∀ x ∈ xs, ∀ y, same x y = false → before? y x = (before? x y).map (!·))
    (hne : sameItems xs ys = false) : itemsBefore? ys xs = (itemsBefore? xs ys).map (!·) := by
  induction xs generalizing ys with
  | nil =>
    cases ys with
    | nil => cases hne
    | cons y ys => rfl
  | cons x xs ih =>
    cases ys with
    | nil => rfl
    | cons y ys =>
      have hcomm : (y == x) = same x y := BEq.comm
      have hfirst : (x == y) = same x y := rfl
      rw [itemsBefore?, itemsBefore?, hcomm, hfirst]
      rw [sameItems] at hne
      cases hxy : same x y with
      | false => exact hswap x List.mem_cons_self y hxy
      | true =>
        rw [hxy, Bool.true_and] at hne
        exact ih (fun z hz => hswap z (List.mem_cons_of_mem x hz)) hne

/-- Unequal values that can be compared come one before the other. -/
theorem IsListable.before?_swap (hv : v.IsListable) (hne : same v w = false) :
    before? w v = (before? v w).map (!·) := by
  induction v generalizing w with
  | number a =>
    cases hv.meeting w with
    | numbers _ b =>
      have hvalue : a.value ≠ b.value := fun h => ne_true_of_eq_false hne (Number.beq_iff.2 h)
      rw [before?_number, before?_number, decide_lt_swap hvalue, Option.map_some]
    | apart hvw hwv => rw [hvw, hwv, Option.map_none]
  | str s =>
    cases hv.meeting w with
    | texts _ t =>
      have hst : s ≠ t := by simpa [same] using hne
      exact congrArg some (decide_lt_swap hst)
    | apart hvw hwv => rw [hvw, hwv, Option.map_none]
  | bytes as =>
    cases hv.meeting w with
    | byteStrings _ bs =>
      have hbytes : as ≠ bs := by simpa [same] using hne
      exact congrArg some (decide_lt_swap hbytes)
    | apart hvw hwv => rw [hvw, hwv, Option.map_none]
  | sequence form xs ih =>
    cases hv.meeting w with
    | tuples _ ys =>
      rw [same_tuple] at hne
      exact itemsBefore?_swap (fun x hx y => ih x hx (hv.items x hx)) hne
    | apart hvw hwv => rw [hvw, hwv, Option.map_none]
  | _ =>
    cases hv.meeting w with
    | apart hvw hwv => rw [hvw, hwv, Option.map_none]

/-- How equal values can differ: numbers by their kind and text, tuples and sets by their items. -/
inductive Alike : Value → Value → Prop
  | refl (v : Value) : Alike v v
  | numbers {a b : Number} : a.value = b.value → Alike (number a) (number b)
  | tuples {xs ys : List Value} : List.Forall₂ (fun x y => same x y = true) xs ys →
      Alike (sequence .tuple xs) (sequence .tuple ys)
  | sets (xs ys : List Value) : Alike (collection .valueSet xs) (collection .valueSet ys)

theorem IsListable.alike (hv : v.IsListable) (h : same v w = true) : Alike v w := by
  cases hv with
  | @number a _ =>
    cases w with
    | number b => exact .numbers (Number.beq_iff.1 h)
    | _ => cases h
  | @tuple xs _ =>
    cases w with
    | sequence form ys =>
      obtain ⟨rfl, -, hitems⟩ := same_sequence_iff.1 h
      exact .tuples hitems
    | _ => cases h
  | @valueSet xs _ _ =>
    cases w with
    | collection form ys =>
      obtain ⟨hform, -, -⟩ := same_collection_iff.1 h
      cases form with
      | valueSet => exact .sets xs ys
      | _ => cases hform
    | _ => cases h
  | absent =>
    cases w with
    | absent => exact .refl _
    | _ => cases h
  | str s =>
    cases w with
    | str t =>
      obtain rfl : s = t := of_decide_eq_true h
      exact .refl _
    | _ => cases h
  | bytes as =>
    cases w with
    | bytes bs =>
      obtain rfl : as = bs := of_decide_eq_true h
      exact .refl _
    | _ => cases h
  | context c =>
    cases w with
    | context d =>
      obtain rfl : c = d := of_decide_eq_true h
      exact .refl _
    | _ => cases h

/-- The comparison of tuples with equal items, on either side. -/
theorem itemsBefore?_congr {xs' : List Value}
    (hcongr : ∀ x ∈ xs, ∀ x', same x x' = true → ∀ y,
      before? x y = before? x' y ∧ before? y x = before? y x')
    (h : List.Forall₂ (fun x x' => same x x' = true) xs xs') (ys : List Value) :
    itemsBefore? xs ys = itemsBefore? xs' ys ∧ itemsBefore? ys xs = itemsBefore? ys xs' := by
  induction h generalizing ys with
  | nil => exact ⟨rfl, rfl⟩
  | @cons x x' xs xs' hx _ ih =>
    cases ys with
    | nil => exact ⟨rfl, rfl⟩
    | cons y ys =>
      obtain ⟨hleft, hright⟩ := hcongr x List.mem_cons_self x' hx y
      obtain ⟨hlefts, hrights⟩ := ih (fun z hz => hcongr z (List.mem_cons_of_mem x hz)) ys
      have hguard : (x == y) = (x' == y) := BEq.congr_left hx
      have hguard' : (y == x) = (y == x') := BEq.congr_right hx
      simp only [itemsBefore?, hguard, hguard', hleft, hright, hlefts, hrights, and_self]

/-- Equal values compare alike with any value, on either side of it. -/
theorem IsListable.before?_congr {v' : Value} (hv : v.IsListable) (h : same v v' = true)
    (w : Value) : before? v w = before? v' w ∧ before? w v = before? w v' := by
  induction v generalizing v' w with
  | sequence form xs ih =>
    cases hv.alike h with
    | refl => exact ⟨rfl, rfl⟩
    | @tuples _ xs' hitems =>
      cases w with
      | sequence form ys =>
        cases form with
        | tuple => exact itemsBefore?_congr (fun x hx _ hx' => ih x hx (hv.items x hx) hx') hitems ys
        | _ => exact ⟨rfl, rfl⟩
      | collection form _ => cases form <;> exact ⟨rfl, rfl⟩
      | _ => exact ⟨rfl, rfl⟩
  | number a =>
    cases hv.alike h with
    | refl => exact ⟨rfl, rfl⟩
    | numbers hvalue =>
      cases w with
      | number b => simp only [before?_number, hvalue, and_self]
      | sequence form _ => cases form <;> exact ⟨rfl, rfl⟩
      | collection form _ => cases form <;> exact ⟨rfl, rfl⟩
      | _ => exact ⟨rfl, rfl⟩
  | collection form xs _ =>
    cases hv.alike h with
    | refl => exact ⟨rfl, rfl⟩
    | sets _ xs' =>
      cases w with
      | sequence form _ => cases form <;> exact ⟨rfl, rfl⟩
      | collection form _ => cases form <;> exact ⟨rfl, rfl⟩
      | _ => exact ⟨rfl, rfl⟩
  | _ =>
    cases hv.alike h with
    | refl => exact ⟨rfl, rfl⟩

/-- Items that are equal decide nothing. -/
theorem itemsBefore?_append (h : List.Forall₂ (fun x y => same x y = true) xs ys)
    (xs' ys' : List Value) : itemsBefore? (xs ++ xs') (ys ++ ys') = itemsBefore? xs' ys' := by
  induction h with
  | nil => rfl
  | @cons x y xs ys hxy _ ih =>
    have hguard : (x == y) = true := hxy
    rw [List.cons_append, List.cons_append, itemsBefore?, if_pos hguard, ih]

theorem itemsBefore?_of_same (h : List.Forall₂ (fun x y => same x y = true) xs ys) :
    itemsBefore? xs ys = some false := by
  simpa [itemsBefore?] using itemsBefore?_append h [] []

/-- A value does not come before an equal one. -/
theorem IsListable.before?_ne_of_same (hv : v.IsListable) (h : same v w = true) :
    before? v w ≠ some true := by
  have hself : ∀ {α : Type} [LT α] [DecidableLT α] [Std.Asymm (α := α) (· < ·)] (a : α),
      some (decide (a < a)) ≠ some true := by
    intro α _ _ _ a
    have hirrefl : ¬ a < a := fun haa => Std.Asymm.asymm a a haa haa
    simp [hirrefl]
  cases hv.alike h with
  | numbers hvalue =>
    rw [before?_number, hvalue]
    exact hself _
  | tuples hitems =>
    rw [before?, itemsBefore?_of_same hitems]
    decide
  | sets => exact nofun
  | refl =>
    cases hv.meeting v with
    | numbers a =>
      rw [before?_number]
      exact hself _
    | texts s => exact hself s
    | byteStrings as => exact hself as
    | tuples xs =>
      have hitems := (same_sequence_iff.1 h).2.2
      rw [before?, itemsBefore?_of_same hitems]
      decide
    | apart hvw =>
      rw [hvw]
      exact nofun

/-- The comparison of tuples passes on, item by item. -/
theorem itemsBefore?_trans {zs : List Value} (hxs : ∀ x ∈ xs, x.IsListable)
    (hys : ∀ y ∈ ys, y.IsListable)
    (htrans : ∀ x ∈ xs, ∀ y ∈ ys, ∀ z, before? x y = some true → before? y z = some true →
      before? x z = some true)
    (hxy : itemsBefore? xs ys = some true) (hyz : itemsBefore? ys zs = some true) :
    itemsBefore? xs zs = some true := by
  induction xs generalizing ys zs with
  | nil =>
    cases zs with
    | nil => cases ys <;> simp [itemsBefore?] at hxy hyz
    | cons z zs => rfl
  | cons x xs ih =>
    cases ys with
    | nil => simp [itemsBefore?] at hxy
    | cons y ys =>
      cases zs with
      | nil => simp [itemsBefore?] at hyz
      | cons z zs =>
        have hx := hxs x List.mem_cons_self
        have hy := hys y List.mem_cons_self
        -- If the first items decide, they do so at the first unequal pair of three.
        have hdecided : before? x z = some true →
            itemsBefore? (x :: xs) (z :: zs) = some true := fun h => by
          have hne : ¬ (x == z) = true := fun hxz => hx.before?_ne_of_same hxz h
          rw [itemsBefore?, if_neg hne, h]
        rw [itemsBefore?] at hxy hyz
        by_cases hsame : (x == y) = true
        · rw [if_pos hsame] at hxy
          by_cases hsame' : (y == z) = true
          · rw [if_pos hsame'] at hyz
            rw [itemsBefore?, if_pos (BEq.trans hsame hsame')]
            exact ih (fun v hv => hxs v (List.mem_cons_of_mem x hv))
              (fun v hv => hys v (List.mem_cons_of_mem y hv))
              (fun v hv w hw => htrans v (List.mem_cons_of_mem x hv) w (List.mem_cons_of_mem y hw))
              hxy hyz
          · rw [if_neg hsame'] at hyz
            exact hdecided ((hx.before?_congr hsame z).1.trans hyz)
        · rw [if_neg hsame] at hxy
          by_cases hsame' : (y == z) = true
          · exact hdecided ((hy.before?_congr hsame' x).2.symm.trans hxy)
          · rw [if_neg hsame'] at hyz
            exact hdecided (htrans x List.mem_cons_self y List.mem_cons_self z hxy hyz)

/-- The order of values passes on. -/
theorem IsListable.before?_trans (hu : u.IsListable) (hv : v.IsListable)
    (huv : before? u v = some true) (hvw : before? v w = some true) : before? u w = some true := by
  induction u generalizing v w with
  | number a =>
    cases hu.meeting v with
    | numbers _ b =>
      cases hv.meeting w with
      | numbers _ c =>
        rw [before?_number, Option.some_inj, decide_eq_true_eq] at huv hvw ⊢
        exact huv.trans hvw
      | apart h => cases h.symm.trans hvw
    | apart h => cases h.symm.trans huv
  | str s =>
    cases hu.meeting v with
    | texts _ t =>
      cases hv.meeting w with
      | texts _ r =>
        rw [before?, Option.some_inj, decide_eq_true_eq] at huv hvw ⊢
        exact huv.trans hvw
      | apart h => cases h.symm.trans hvw
    | apart h => cases h.symm.trans huv
  | bytes as =>
    cases hu.meeting v with
    | byteStrings _ bs =>
      cases hv.meeting w with
      | byteStrings _ cs =>
        rw [before?, Option.some_inj, decide_eq_true_eq] at huv hvw ⊢
        exact List.lt_trans huv hvw
      | apart h => cases h.symm.trans hvw
    | apart h => cases h.symm.trans huv
  | sequence form xs ih =>
    cases hu.meeting v with
    | tuples _ ys =>
      cases hv.meeting w with
      | tuples _ zs =>
        exact itemsBefore?_trans hu.items hv.items
          (fun x hx y hy _ => ih x hx (hu.items x hx) (hv.items y hy)) huv hvw
      | apart h => cases h.symm.trans hvw
    | apart h => cases h.symm.trans huv
  | _ =>
    cases hu.meeting v with
    | apart h => cases h.symm.trans huv

/-- Equal items in front of two tuples do not matter. -/
theorem Compares.cons {x y : Value} {b : Bool} (hxy : same x y = true)
    (h : Compares (sequence .tuple xs) (sequence .tuple ys) b) :
    Compares (sequence .tuple (x :: xs)) (sequence .tuple (y :: ys)) b := by
  cases h with
  | tuple hitems hne hcompares => exact .tuple (.cons hxy hitems) hne hcompares
  | within ys' hitems => exact .within ys' (.cons hxy hitems)
  | beyond x' xs' hitems => exact .beyond x' xs' (.cons hxy hitems)

theorem compares_of_itemsBefore? {b : Bool}
    (hitems : ∀ x ∈ xs, ∀ y b, before? x y = some b → Compares x y b)
    (h : itemsBefore? xs ys = some b) : Compares (sequence .tuple xs) (sequence .tuple ys) b := by
  induction xs generalizing ys with
  | nil =>
    obtain rfl := Option.some.inj h
    exact .within ys .nil
  | cons x xs ih =>
    cases ys with
    | nil =>
      obtain rfl := Option.some.inj h
      exact .beyond x xs .nil
    | cons y ys =>
      rw [itemsBefore?] at h
      by_cases hxy : (x == y) = true
      · rw [if_pos hxy] at h
        exact (ih (fun z hz => hitems z (List.mem_cons_of_mem x hz)) h).cons hxy
      · rw [if_neg hxy] at h
        exact @Compares.tuple [] [] xs ys x y b .nil (Bool.eq_false_iff.2 hxy)
          (hitems x List.mem_cons_self y b h)

theorem IsListable.compares {b : Bool} (hv : v.IsListable) (h : before? v w = some b) :
    Compares v w b := by
  induction v generalizing w b with
  | sequence form xs ih =>
    cases hv.meeting w with
    | tuples _ ys => exact compares_of_itemsBefore? (fun x hx _ _ => ih x hx (hv.items x hx)) h
    | apart hvw => cases hvw.symm.trans h
  | number a =>
    cases hv.meeting w with
    | numbers _ c =>
      obtain rfl := Option.some.inj ((before?_number a c).symm.trans h)
      exact .number a c
    | apart hvw => cases hvw.symm.trans h
  | str s =>
    cases hv.meeting w with
    | texts _ t =>
      obtain rfl := Option.some.inj h
      exact .str s t
    | apart hvw => cases hvw.symm.trans h
  | bytes as =>
    cases hv.meeting w with
    | byteStrings _ bs =>
      obtain rfl := Option.some.inj h
      exact .bytes as bs
    | apart hvw => cases hvw.symm.trans h
  | _ =>
    cases hv.meeting w with
    | apart hvw => cases hvw.symm.trans h

theorem Compares.before?_eq {b : Bool} (h : Compares v w b) : before? v w = some b := by
  induction h with
  | number a b => exact before?_number a b
  | str s t => rfl
  | bytes as bs => rfl
  | @tuple xs ys xs' ys' x y b hitems hne _ ih =>
    have hguard : ¬ (x == y) = true := Bool.eq_false_iff.1 hne
    rw [before?, itemsBefore?_append hitems, itemsBefore?, if_neg hguard, ih]
  | @within xs ys ys' hitems => simpa [before?, itemsBefore?] using itemsBefore?_append hitems [] ys'
  | @beyond xs ys x xs' hitems =>
    simpa [before?, itemsBefore?] using itemsBefore?_append hitems (x :: xs') []

theorem IsListable.precedes_iff (hv : v.IsListable) : Precedes v w ↔ before? v w = some true :=
  ⟨Compares.before?_eq, hv.compares⟩

theorem IsListable.comparable_iff (hv : v.IsListable) :
    Comparable v w ↔ (before? v w).isSome = true := by
  rw [Option.isSome_iff_exists]
  exact exists_congr fun b => ⟨Compares.before?_eq, hv.compares⟩

/-- One of two values comes before the other. -/
def InOrder (v w : Value) : Prop := Precedes v w ∨ Precedes w v

theorem InOrder.symm (h : InOrder v w) : InOrder w v := Or.symm h

theorem IsListable.comparable_iff_inOrder (hv : v.IsListable) (hw : w.IsListable)
    (hne : same v w = false) : Comparable v w ↔ InOrder v w := by
  rw [hv.comparable_iff, InOrder, hv.precedes_iff, hw.precedes_iff, hv.before?_swap hne]
  rcases before? v w with _ | _ | _ <;> simp

theorem Precedes.trans (hu : u.IsListable) (hv : v.IsListable) (huv : Precedes u v)
    (hvw : Precedes v w) : Precedes u w :=
  hu.compares (hu.before?_trans hv huv.before?_eq hvw.before?_eq)

theorem Precedes.asymm (hv : v.IsListable) (hvw : Precedes v w) : ¬ Precedes w v := by
  intro hwv
  cases hsame : same v w with
  | true => exact hv.before?_ne_of_same hsame hvw.before?_eq
  | false =>
    have hswap := hv.before?_swap hsame
    rw [hvw.before?_eq, hwv.before?_eq] at hswap
    cases hswap

theorem notAfter_iff (hw : w.IsListable) : notAfter v w = true ↔ ¬ Precedes w v := by
  rw [hw.precedes_iff, notAfter, bne_iff_ne]

end Value

end FeatureLattice
