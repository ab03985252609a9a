import FeatureLattice.Lattice.OnValues
import FeatureLattice.Proofs.ValueEquality
import Mathlib.Data.List.Induction

/-!
# Repeated samples

Of equal samples the first is checked, and no other. Equal samples may differ as data, so it matters
which of them stays; that it is the first, at its place, needs the test to be symmetric and
transitive. More samples at the end only add to what stays. So a repetition changes nothing in a
report of the law checker and uses up none of the limit, and nothing behind a list that fills the
limit is looked at.
-/
namespace FeatureLattice

section Lists

variable {α : Type} [BEq α] {x : α} {xs : List α}

/-- The members of a list that equal none before them, in order. -/
def firsts (xs : List α) : List α :=
  (xs.zipIdx.filter fun p => !occursIn p.1 (xs.take p.2)).map Prod.fst

/-- What is left of a list if of equal members the first stays, at its place, and no other. A member
that equals itself has one equal there: the one that comes first in the list. -/
structure KeepsFirsts (xs kept : List α) : Prop where
  sublist : kept.Sublist xs
  eq_firsts : kept = firsts xs
  unequal : kept.Pairwise fun a b => (a == b) = false ∧ (b == a) = false
  represents : ∀ x ∈ xs, (x == x) = true → ∃ first, xs.find? (· == x) = some first ∧
    kept.filter (· == x) = [first]

theorem distinct_append (xs ys : List α) :
    distinct (xs ++ ys) = ys.foldl addNew (distinct xs) := List.foldl_append

/-- Going on with a list, what has been kept stays in front. -/
theorem distinct_isPrefix (xs ys : List α) : distinct xs <+: distinct (xs ++ ys) := by
  rw [distinct_append, foldl_addNew_eq]
  exact List.prefix_append _ _

theorem firsts_sublist (xs : List α) : (firsts xs).Sublist xs := by
  have hsublist : (firsts xs).Sublist (xs.zipIdx.map Prod.fst) :=
    List.filter_sublist.map Prod.fst
  rwa [List.zipIdx_map_fst] at hsublist

/-- Whether a member comes first does not depend on what follows it. -/
theorem firsts_append_singleton (xs : List α) (x : α) :
    firsts (xs ++ [x]) = firsts xs ++ if occursIn x xs then [] else [x] := by
  have hbefore : (xs.zipIdx.filter fun p => !occursIn p.1 ((xs ++ [x]).take p.2)) =
      xs.zipIdx.filter fun p => !occursIn p.1 (xs.take p.2) := by
    refine List.filter_congr fun p hp => ?_
    have hlt : p.2 < xs.length := List.snd_lt_of_mem_zipIdx hp
    rw [List.take_append_of_le_length (Nat.le_of_lt hlt)]
  rw [firsts, List.zipIdx_append, List.filter_append, hbefore, List.map_append, ← firsts]
  cases h : occursIn x xs <;> simp [h]

variable [PartialEquivBEq α]

/-- One more member stays if none before it is equal. -/
theorem distinct_append_singleton (xs : List α) (x : α) :
    distinct (xs ++ [x]) = distinct xs ++ if occursIn x xs then [] else [x] := by
  have hstep : distinct (xs ++ [x]) = addNew (distinct xs) x := distinct_append xs [x]
  rw [hstep, addNew, occursIn_distinct]
  split <;> simp

theorem distinct_eq_firsts (xs : List α) : distinct xs = firsts xs := by
  induction xs using List.reverseRecOn with
  | nil => rfl
  | append_singleton xs x ih => rw [distinct_append_singleton, firsts_append_singleton, ih]

/-- Of all that equals a value, the first member stays. -/
theorem filter_distinct (x : α) (xs : List α) :
    (distinct xs).filter (· == x) = (xs.find? (· == x)).toList := by
  induction xs using List.reverseRecOn with
  | nil => rfl
  | append_singleton xs y ih =>
    rw [distinct_append_singleton, List.filter_append, ih, List.find?_append]
    cases hyx : y == x with
    | false => split <;> simp [hyx]
    | true =>
      -- Then `y` stays exactly if nothing before it equals `x`.
      have hseen : occursIn y xs = (xs.find? (· == x)).isSome :=
        (occursIn_congr hyx xs).trans List.isSome_find?.symm
      cases hfind : xs.find? (· == x) <;> simp [hseen, hfind, hyx]

theorem keepsFirsts_distinct (xs : List α) : KeepsFirsts xs (distinct xs) where
  sublist := distinct_eq_firsts xs ▸ firsts_sublist xs
  eq_firsts := distinct_eq_firsts xs
  unequal := (unequal_distinct xs).imp fun h => ⟨h, BEq.comm.trans h⟩
  represents x hx hself := by
    cases hfind : xs.find? (· == x) with
    | none => exact absurd hself (List.find?_eq_none.1 hfind x hx)
    | some first => exact ⟨first, rfl, by rw [filter_distinct, hfind, Option.toList_some]⟩

/-- A value that equals an earlier one is not kept. -/
theorem distinct_insert {before : List α} (h : occursIn x before = true) (after : List α) :
    distinct (before ++ x :: after) = distinct (before ++ after) := by
  have hseen : addNew (distinct before) x = distinct before := by
    rw [addNew, occursIn_distinct, if_pos h]
  rw [distinct_append, distinct_append, List.foldl_cons, hseen]

/-- At least as many members are kept as there are unequal values among the members. -/
theorem Unequal.length_le_distinct {vs : List α} (h : Unequal vs)
    (hvs : ∀ v ∈ vs, occursIn v xs = true) : vs.length ≤ (distinct xs).length :=
  h.length_le fun v hv => occursIn_distinct.trans (hvs v hv)

end Lists

namespace MeetSemilattice

variable {α : Type} [BEq α] {config : LawCheckConfig} {xs ys : List α}

/-- A check depends on the samples that are checked, and on no others. -/
theorem verifyLaws_congr (l : MeetSemilattice α)
    (h : checkedSamples config xs = checkedSamples config ys) :
    l.verifyLaws xs config = l.verifyLaws ys config := by
  rw [verifyLaws, verifyLaws, h]

/-- What follows a list that fills the limit is cut off. -/
theorem checkedSamples_append (h : config.maxSamples ≤ (distinct xs).length) (ys : List α) :
    checkedSamples config (xs ++ ys) = checkedSamples config xs := by
  have hfull : config.maxSamples.toNat ≤ (distinct xs).length := by omega
  obtain ⟨more, hmore⟩ := distinct_isPrefix xs ys
  rw [checkedSamples, checkedSamples, ← hmore, List.take_append_of_le_length hfull]

/-- A greater limit does not matter to samples that have been cut before. -/
theorem verifyLaws_cut (l : MeetSemilattice α) {limit : Int} (hpos : 0 < config.maxSamples)
    (hlimit : config.maxSamples ≤ limit) (xs : List α) :
    l.verifyLaws ((distinct xs).take config.maxSamples.toNat) { config with maxSamples := limit } =
      l.verifyLaws xs config := by
  have hunequal : Unequal ((distinct xs).take config.maxSamples.toNat) :=
    (unequal_distinct xs).sublist (List.take_sublist _ _)
  have hshort : ((distinct xs).take config.maxSamples.toNat).length ≤ limit.toNat := by
    rw [List.length_take]
    omega
  have hchecked : checkedSamples { config with maxSamples := limit }
      ((distinct xs).take config.maxSamples.toNat) = checkedSamples config xs := by
    rw [checkedSamples, distinct_of_unequal hunequal, List.take_of_length_le hshort, checkedSamples]
  have hvalid : config.problems = [] := if_neg (Int.not_le.2 hpos)
  have hvalid' : { config with maxSamples := limit }.problems = [] :=
    if_neg (Int.not_le.2 (Int.lt_of_lt_of_le hpos hlimit))
  rw [verifyLaws, verifyLaws, hvalid, hvalid', hchecked]
  -- The limit is read when the samples are cut, and never again.
  rfl

/-- **Repetitions cost nothing.** Of equal samples the first stays, at its place, and more samples
only add to what stays. So a check gives the same result if a value is put in behind a sample that
it equals, and if any samples are put behind a list in which as many unequal values occur as the
limit allows. Cutting the distinct samples before the check is the same as giving the limit to the
check. -/
theorem repetitions_cost_nothing [PartialEquivBEq α] (xs : List α) :
    KeepsFirsts xs (distinct xs) ∧
    (∀ ys, distinct xs <+: distinct (xs ++ ys)) ∧
    ∀ (l : MeetSemilattice α) (config : LawCheckConfig),
      (∀ before v after, xs = before ++ after → (∃ s ∈ before, (s == v) = true) →
        l.verifyLaws (before ++ v :: after) config = l.verifyLaws xs config) ∧
      (∀ vs ys, Unequal vs → (∀ v ∈ vs, ∃ s ∈ xs, (s == v) = true) →
        config.maxSamples ≤ vs.length →
        l.verifyLaws (xs ++ ys) config = l.verifyLaws xs config) ∧
      (∀ limit, 0 < config.maxSamples → config.maxSamples ≤ limit →
        l.verifyLaws ((distinct xs).take config.maxSamples.toNat)
          { config with maxSamples := limit } = l.verifyLaws xs config) := by
  refine ⟨keepsFirsts_distinct xs, distinct_isPrefix xs, fun l config => ⟨?_, ?_, ?_⟩⟩
  · rintro before v after rfl hv
    have hsame := distinct_insert (occursIn_iff.2 hv) after
    exact l.verifyLaws_congr (by rw [checkedSamples, checkedSamples, hsame])
  · intro vs ys hunequal hvs hlimit
    have hlength := hunequal.length_le_distinct fun v hv => occursIn_iff.2 (hvs v hv)
    exact l.verifyLaws_congr (checkedSamples_append (by omega) ys)
  · intro limit hpos hlimit
    exact l.verifyLaws_cut hpos hlimit xs

/-- Three samples, of which the last equals the first, though it is of another kind. -/
def oneTextTrue : List Value := [.int 1, .str "a", .bool true]

/-- The meet that takes its left operand, which breaks commutativity. -/
def takeLeft : MeetSemilattice Value := NamedLattice.leftProjection.onValues

/-- The whole number stands for the truth value as well, a second truth value in front of the text
changes nothing, and a limit of 2 is filled by the text and the truth value. -/
theorem repetitions_cost_nothing_oneTextTrue :
    (distinct oneTextTrue).filter (· == .bool true) = [.int 1] ∧
    takeLeft.verifyLaws [.int 1, .bool true, .str "a", .bool true] ⟨2, true, true⟩ =
      takeLeft.verifyLaws oneTextTrue ⟨2, true, true⟩ ∧
    takeLeft.verifyLaws (oneTextTrue ++ [.absent]) ⟨2, true, true⟩ =
      takeLeft.verifyLaws oneTextTrue ⟨2, true, true⟩ ∧
    takeLeft.verifyLaws ((distinct oneTextTrue).take 2) ⟨5, true, true⟩ =
      takeLeft.verifyLaws oneTextTrue ⟨2, true, true⟩ := by
  have hsame : (Value.int 1 == Value.bool true) = true := by decide +kernel
  have hself : (Value.bool true == Value.bool true) = true := by decide +kernel
  have htext : (Value.str "a" == Value.str "a") = true := by decide +kernel
  obtain ⟨hkeeps, -, hcheck⟩ := repetitions_cost_nothing oneTextTrue
  obtain ⟨hinsert, hfilled, hcut⟩ := hcheck takeLeft ⟨2, true, true⟩
  refine ⟨?_, ?_, ?_, hcut 5 (by decide) (by decide)⟩
  · obtain ⟨first, hfirst, hfilter⟩ := hkeeps.represents (.bool true) (by simp [oneTextTrue]) hself
    have hone : oneTextTrue.find? (· == .bool true) = some (.int 1) := List.find?_cons_of_pos hsame
    rw [hfilter, ← Option.some.inj (hone.symm.trans hfirst)]
  · exact hinsert [.int 1] (.bool true) [.str "a", .bool true] rfl ⟨_, List.mem_cons_self, hsame⟩
  · have hunequal : Unequal [Value.str "a", Value.bool true] := by
      unfold Unequal
      decide +kernel
    refine hfilled [.str "a", .bool true] [.absent] hunequal ?_ (by decide)
    refine List.forall_mem_cons.2 ⟨⟨.str "a", by simp [oneTextTrue], htext⟩, ?_⟩
    exact List.forall_mem_singleton.2 ⟨.int 1, by simp [oneTextTrue], hsame⟩

end MeetSemilattice

end FeatureLattice
