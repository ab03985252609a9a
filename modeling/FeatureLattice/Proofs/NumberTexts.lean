import FeatureLattice.Number
import Mathlib

/-!
# Texts of numbers

Truth values are written as words; all other numbers with digits, signs, a point, the mark of an
exponent and the word for infinity. For floating-point numbers this is what can be read, for whole
numbers what is written. So a text tells the value of the number, unless a floating-point number is
written as whole numbers are.
-/
namespace FeatureLattice

/-- The characters that numbers are written with, other than truth values. -/
def IsNumeral (c : Char) : Prop := c.isDigit = true ∨ c ∈ ['+', '-', '.', 'e', 'i', 'n', 'f']

instance : DecidablePred IsNumeral := fun c =>
  inferInstanceAs (Decidable (c.isDigit = true ∨ c ∈ ['+', '-', '.', 'e', 'i', 'n', 'f']))

namespace Binary64

theorem isNumeral_of_digit? {c : Char} {d : Nat} (h : digit? c = some d) : IsNumeral c := by
  unfold digit? at h
  split at h
  · rename_i hdigit
    exact .inl (by simpa [Char.isDigit, Char.le_def] using hdigit)
  · cases h

/-- Reading digits takes numerals off a text, at least one if it counts any. -/
theorem digits_spec (n count : Nat) (cs : List Char) :
    ∃ taken, cs = taken ++ (digits n count cs).2.2 ∧ (∀ c ∈ taken, IsNumeral c) ∧
      (digits n count cs).2.1 = count + taken.length := by
  induction cs generalizing n count with
  | nil => exact ⟨[], rfl, nofun, rfl⟩
  | cons c cs ih =>
    rw [digits]
    cases hdigit : digit? c with
    | none => exact ⟨[], rfl, nofun, rfl⟩
    | some d =>
      obtain ⟨taken, htaken, hnumerals, hcount⟩ := ih (10 * n + d) (count + 1)
      refine ⟨c :: taken, ?_, ?_, ?_⟩
      · rw [List.cons_append, ← htaken]
      · exact List.forall_mem_cons.2 ⟨isNumeral_of_digit? hdigit, hnumerals⟩
      · simp only [hcount, List.length_cons]
        omega

theorem isNumeral_of_digits {n count value read : Nat} {cs : List Char}
    (h : digits n count cs = (value, read, [])) : ∀ c ∈ cs, IsNumeral c := by
  obtain ⟨taken, htaken, hnumerals, -⟩ := digits_spec n count cs
  rw [h, List.append_nil] at htaken
  exact htaken ▸ hnumerals

theorem isNumeral_of_exponent? {cs : List Char} {e : Int} (h : exponent? cs = some e) :
    ∀ c ∈ cs, IsNumeral c := by
  unfold exponent? at h
  split at h
  · exact nofun
  · rename_i cs
    refine List.forall_mem_cons.2 ⟨by decide, ?_⟩
    split at h
    rename_i negative rest hsign
    split at h
    · rename_i n read hdigits
      have hrest := isNumeral_of_digits hdigits
      -- The sign in front of the digits is a numeral, if there is one.
      split at hsign
      · obtain ⟨-, rfl⟩ := Prod.mk.inj hsign
        exact List.forall_mem_cons.2 ⟨by decide, hrest⟩
      · obtain ⟨-, rfl⟩ := Prod.mk.inj hsign
        exact List.forall_mem_cons.2 ⟨by decide, hrest⟩
      · obtain ⟨-, rfl⟩ := Prod.mk.inj hsign
        exact hrest
    · cases h
  · cases h

theorem isNumeral_of_fraction {n value places : Nat} {cs rest : List Char}
    (h : fraction n cs = (value, places, rest)) (hrest : ∀ c ∈ rest, IsNumeral c) :
    ∀ c ∈ cs, IsNumeral c := by
  unfold fraction at h
  split at h
  · rename_i cs
    obtain ⟨taken, htaken, hnumerals, -⟩ := digits_spec n 0 cs
    rw [h] at htaken
    refine List.forall_mem_cons.2 ⟨by decide, ?_⟩
    rw [htaken]
    exact List.forall_mem_append.2 ⟨hnumerals, hrest⟩
  · obtain ⟨-, -, rfl⟩ := h
    exact hrest

theorem isNumeral_of_magnitude? {negative : Bool} {cs : List Char} {x : Extended}
    (h : magnitude? negative cs = some x) : cs ≠ [] ∧ ∀ c ∈ cs, IsNumeral c := by
  unfold magnitude? at h
  split at h
  · rename_i hword
    subst hword
    exact ⟨by decide, List.forall_mem_cons.2 ⟨by decide, List.forall_mem_cons.2
      ⟨by decide, List.forall_mem_singleton.2 (by decide)⟩⟩⟩
  · split at h
    · cases h
    · rename_i whole read rest hdigits
      obtain ⟨taken, htaken, hnumerals, hcount⟩ := digits_spec 0 0 cs
      rw [hdigits] at htaken hcount
      have hne : cs ≠ [] := by
        rintro rfl
        cases hdigits
      generalize hfraction : fraction whole rest = parts at h
      obtain ⟨n, places, rest'⟩ := parts
      obtain ⟨e, hexponent, -⟩ := Option.map_eq_some_iff.1 h
      have hrest := isNumeral_of_fraction hfraction (isNumeral_of_exponent? hexponent)
      rw [htaken] at hne ⊢
      exact ⟨hne, List.forall_mem_append.2 ⟨hnumerals, hrest⟩⟩

theorem isNumeral_of_read? {text : String} {x : Extended} (h : read? text = some x) :
    text.toList ≠ [] ∧ ∀ c ∈ text.toList, IsNumeral c := by
  unfold read? at h
  split at h
  · rename_i cs hcs
    rw [hcs]
    exact ⟨List.cons_ne_nil _ _, List.forall_mem_cons.2 ⟨by decide, (isNumeral_of_magnitude? h).2⟩⟩
  · exact isNumeral_of_magnitude? h

end Binary64

/-- Whole numbers are written with digits behind a sign, if there is one. -/
theorem isDigit_or_minus_of_int (n : Int) :
    (toString n).toList ≠ [] ∧ ∀ c ∈ (toString n).toList, c.isDigit = true ∨ c = '-' := by
  have hnat : ∀ k : Nat, k.repr.toList ≠ [] ∧ ∀ c ∈ k.repr.toList, c.isDigit = true ∨ c = '-' := by
    intro k
    rw [Nat.toList_repr]
    exact ⟨Nat.toDigits_ne_nil, fun c hc =>
      .inl (Nat.isDigit_of_mem_toDigits (by decide) (by decide) hc)⟩
  rw [Int.toString_eq_repr, Int.repr_eq_if]
  split
  · exact hnat _
  · have hsign : "-".toList = ['-'] := rfl
    rw [String.toList_append, hsign]
    exact ⟨List.cons_ne_nil _ _, List.forall_mem_cons.2 ⟨.inr rfl, (hnat _).2⟩⟩

theorem isNumeral_of_int (n : Int) :
    (toString n).toList ≠ [] ∧ ∀ c ∈ (toString n).toList, IsNumeral c := by
  obtain ⟨hne, hchars⟩ := isDigit_or_minus_of_int n
  refine ⟨hne, fun c hc => (hchars c hc).imp_right fun hminus => ?_⟩
  rw [hminus]
  decide

namespace Number

variable {a b : Number}

/-- A floating-point number is written with a point, an exponent or the word for infinity, never as
a whole number is. -/
def IsMarked : Number → Prop
  | float x => ∀ n : Int, x.text ≠ toString n
  | _ => True

/-- A point, the mark of an exponent or a letter of the word for infinity is a mark. -/
theorem isMarked_of_mem {x : Floating} {c : Char} (hc : c ∈ x.text.toList)
    (hmark : ¬ (c.isDigit = true ∨ c = '-')) : (float x).IsMarked := by
  intro n h
  exact hmark ((isDigit_or_minus_of_int n).2 c (h ▸ hc))

/-- Truth values apart, numbers are written with numerals. -/
theorem text_cases (a : Number) :
    (∃ b, a = bool b) ∨ a.text.toList ≠ [] ∧ ∀ c ∈ a.text.toList, IsNumeral c := by
  cases a with
  | bool b => exact .inl ⟨b, rfl⟩
  | int n => exact .inr (isNumeral_of_int n)
  | float x => exact .inr (Binary64.isNumeral_of_read? x.reads)

theorem text_bool_ne (b : Bool) (h : ∀ c ∈ a.text.toList, IsNumeral c) : (bool b).text ≠ a.text := by
  intro he
  rw [← he] at h
  cases b
  · exact absurd (h 'F' (by decide)) (by decide)
  · exact absurd (h 'T' (by decide)) (by decide)

/-- The text of a number tells its value. -/
theorem value_eq_of_text (ha : a.IsMarked) (hb : b.IsMarked) (h : a.text = b.text) :
    a.value = b.value := by
  cases a with
  | bool c =>
    rcases b.text_cases with ⟨d, rfl⟩ | ⟨-, hnumerals⟩
    · have hcd : c = d := by
        revert h
        cases c <;> cases d <;> decide
      rw [hcd]
    · exact absurd h (text_bool_ne c hnumerals)
  | int m =>
    cases b with
    | bool d => exact absurd h.symm (text_bool_ne d (isNumeral_of_int m).2)
    | int n =>
      have hmn : m = n := Int.repr_injective h
      rw [hmn]
    | float y => exact absurd h.symm (hb m)
  | float x =>
    cases b with
    | bool d => exact absurd h.symm (text_bool_ne d (Binary64.isNumeral_of_read? x.reads).2)
    | int n => exact absurd h (ha n)
    | float y =>
      have htext : x.text = y.text := h
      have hvalue : some x.value = some y.value := by
        rw [← x.reads, ← y.reads, htext]
      exact Option.some.inj hvalue

end Number

end FeatureLattice
