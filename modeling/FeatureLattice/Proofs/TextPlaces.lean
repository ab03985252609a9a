import FeatureLattice.FeatureError
import Mathlib.Data.List.TakeWhile
import Mathlib.Data.Prod.Lex

/-!
# Lines and columns as coordinates

The line of a position is counted from the front of the text, its column from the last line feed
before the position; the two scans know nothing of each other. Both fit together: the numbered line
starts at one place in the text, and from there the column leads to the position and to no other.
So a place determines its position, and places follow each other as their positions do.
-/
namespace FeatureLattice

namespace Text

variable {text tail : List Char} {n start p q : ℕ}

/-- Where a line starts, by its number: the first line at the front of the text, and every other
line behind the line feed that ends the line before it. -/
inductive LineStart (text : List Char) : ℕ → ℕ → Prop
  | first : LineStart text 1 0
  | next {before after : List Char} : text = before ++ '\n' :: after →
      LineStart text (before.count '\n' + 2) (before.length + 1)

theorem LineStart.le_count (h : LineStart text n start) : n ≤ text.count '\n' + 1 := by
  cases h with
  | first => exact Nat.le_add_left 1 _
  | next htext =>
    rw [htext, List.count_append, List.count_cons_self]
    omega

/-- What starts with a line feed and adds none to the count is empty. -/
theorem eq_nil_of_count_append {before m after rest : List Char}
    (h : '\n' :: after = m ++ '\n' :: rest)
    (hcount : (before ++ m).count '\n' = before.count '\n') : m = [] := by
  cases m with
  | nil => rfl
  | cons c m =>
    obtain ⟨rfl, -⟩ := List.cons.inj h
    rw [List.count_append, List.count_cons_self] at hcount
    omega

/-- A line feed is known by the number of line feeds before it. -/
theorem eq_of_count_eq {before before' after after' : List Char}
    (h : before ++ '\n' :: after = before' ++ '\n' :: after')
    (hcount : before.count '\n' = before'.count '\n') : before = before' := by
  rcases List.append_eq_append_iff.1 h with ⟨m, rfl, hrest⟩ | ⟨m, rfl, hrest⟩
  · rw [eq_nil_of_count_append hrest hcount.symm, List.append_nil]
  · rw [eq_nil_of_count_append hrest hcount, List.append_nil]

/-- A line starts at one place only. -/
theorem LineStart.unique {start' : ℕ} (h : LineStart text n start)
    (h' : LineStart text n start') : start = start' := by
  generalize hn : n = n' at h'
  cases h with
  | first =>
    cases h' with
    | first => rfl
    | next => omega
  | next htext =>
    cases h' with
    | first => omega
    | next htext' => rw [eq_of_count_eq (htext.symm.trans htext') (by omega)]

@[simp] theorem before_natCast (text : List Char) (p : ℕ) : before text p = text.take p := by
  simp [before]

theorem lineNumber_natCast (text : List Char) (p : ℕ) :
    lineNumber text p = (text.take p).count '\n' + 1 := by
  rw [lineNumber, before_natCast]

/-- The line of a position starts behind the last line feed before the position, or at the front
of the text if there is none. -/
theorem lineStart_of_take {front : List Char} (h : text.take p = front ++ tail)
    (hfront : ∀ c ∈ front.getLast?, c = '\n') (htail : '\n' ∉ tail) :
    lineStart text p = front.length := by
  have hall : ∀ c ∈ tail.reverse, decide (c ≠ '\n') = true := by
    intro c hc
    rw [decide_eq_true_eq]
    rintro rfl
    exact htail (List.mem_reverse.1 hc)
  have hstop : front.reverse.takeWhile (· ≠ '\n') = [] := by
    cases hrev : front.reverse with
    | nil => rfl
    | cons c r =>
      have hlast : c ∈ front.getLast? := by simp [← List.head?_reverse, hrev]
      simp [hfront c hlast]
  have hline : (text.take p).reverse.takeWhile (· ≠ '\n') = tail.reverse := by
    rw [h, List.reverse_append, List.takeWhile_append_of_pos hall, hstop, List.append_nil]
  rw [lineStart, before_natCast, hline, h, List.length_append, List.length_reverse,
    Nat.add_sub_cancel]

/-- The text before a position, cut behind its last line feed. -/
theorem exists_take_eq (text : List Char) (p : ℕ) :
    ∃ front tail, text.take p = front ++ tail ∧ '\n' ∉ tail ∧
      (front = [] ∨ ∃ before, front = before ++ ['\n']) := by
  by_cases hmem : '\n' ∈ text.take p
  · obtain ⟨after, before, hsplit, hnot⟩ := List.eq_append_cons_of_mem (List.mem_reverse.2 hmem)
    refine ⟨before.reverse ++ ['\n'], after.reverse, ?_, by simpa using hnot, .inr ⟨_, rfl⟩⟩
    have hrev := congrArg List.reverse hsplit
    simpa using hrev
  · exact ⟨[], text.take p, rfl, hmem, .inl rfl⟩

/-- The line of a position starts at or before it, with no line feed in between. -/
theorem lineStart_lineNumber (hp : p ≤ text.length) :
    LineStart text (lineNumber text p) (lineStart text p) ∧ lineStart text p ≤ p ∧
      '\n' ∉ (text.take p).drop (lineStart text p) := by
  obtain ⟨front, tail, htake, htail, hfront⟩ := exists_take_eq text p
  have hlast : ∀ c ∈ front.getLast?, c = '\n' := by
    rcases hfront with rfl | ⟨before, rfl⟩ <;> simp
  have hstart : lineStart text p = front.length := lineStart_of_take htake hlast htail
  have hlength : front.length + tail.length = p := by
    rw [← List.length_append, ← htake, List.length_take_of_le hp]
  have hcount : tail.count '\n' = 0 := List.count_eq_zero.2 htail
  refine ⟨?_, by omega, ?_⟩
  · rw [hstart, lineNumber_natCast, htake, List.count_append, hcount]
    rcases hfront with rfl | ⟨before, rfl⟩
    · exact .first
    · have htext : text = before ++ '\n' :: (tail ++ text.drop p) := by
        calc
          text = text.take p ++ text.drop p := (List.take_append_drop p text).symm
          _ = before ++ '\n' :: (tail ++ text.drop p) := by rw [htake]; simp
      simpa using LineStart.next htext
  · rwa [hstart, htake, List.drop_left]

/-- A later position stands on a later line, or further right on the same line. -/
theorem place_lt (hpq : p < q) (hq : q ≤ text.length) :
    toLex (lineNumber text p, columnNumber text p) <
      toLex (lineNumber text q, columnNumber text q) := by
  have hlp := (lineStart_lineNumber (hpq.le.trans hq)).1
  have hlq := (lineStart_lineNumber hq).1
  have hle : lineNumber text p ≤ lineNumber text q := by
    rw [lineNumber_natCast, lineNumber_natCast]
    exact Nat.succ_le_succ ((List.take_sublist_take_left hpq.le).count_le _)
  rw [Prod.Lex.toLex_lt_toLex]
  rcases hle.lt_or_eq with hlt | hline
  · exact .inl hlt
  · have hstart : lineStart text p = lineStart text q := by
      rw [hline] at hlp
      exact hlp.unique hlq
    refine .inr ⟨hline, ?_⟩
    simp only [columnNumber, hstart]
    omega

end Text

namespace FeatureError
open Text

/-- **The place of an error about a text leads back to its position.** The text has as many line
feeds as the line needs, the line starts at one place, and the column counts the characters from
there, which hold no line feed. So no other position has this place, and a later one has a place
that is later by line, or by column on the same line. -/
theorem place?_recovers_position {text : String} {p : ℕ} (hp : p ≤ text.length)
    (message hint : String) : ∃ line column,
      (malformed message text p hint).place? = some (line, column) ∧
      line - 1 ≤ text.toList.count '\n' ∧ 1 ≤ column ∧
      (∃ start : ℕ, (∀ s, LineStart text.toList line s ↔ s = start) ∧ start + (column - 1) = p ∧
        '\n' ∉ (text.toList.take p).drop start) ∧
      ∀ q ≤ text.length, ∀ line' column',
        (malformed message text q hint).place? = some (line', column') →
          ((line', column') = (line, column) → q = p) ∧
          (p < q → toLex (line, column) < toLex (line', column')) := by
  have hp' : p ≤ text.toList.length := by rwa [String.length_toList]
  obtain ⟨hstart, hle, hfree⟩ := lineStart_lineNumber hp'
  refine ⟨_, _, rfl, ?_, ?_, ⟨lineStart text.toList p, fun s => ⟨fun hs => hs.unique hstart, ?_⟩,
    ?_, hfree⟩, ?_⟩
  · have hcount := hstart.le_count
    omega
  · rw [columnNumber]
    omega
  · rintro rfl
    exact hstart
  · rw [columnNumber]
    omega
  · intro q hq line' column' hplace
    have hq' : q ≤ text.toList.length := by rwa [String.length_toList]
    obtain ⟨rfl, rfl⟩ := Prod.mk.inj (Option.some.inj hplace)
    refine ⟨fun heq => ?_, fun hpq => place_lt hpq hq'⟩
    rcases lt_trichotomy p q with hlt | rfl | hlt
    · exact absurd (place_lt hlt hq') (by rw [heq]; exact lt_irrefl _)
    · rfl
    · exact absurd (place_lt hlt hp') (by rw [heq]; exact lt_irrefl _)

/-- Behind two line feeds in a row stands the first column of the third line. -/
theorem place?_recovers_position_empty_line : 4 ≤ "ab\n\ncd".length ∧
    (malformed "" "ab\n\ncd" 4 "").place? = some (3, 1) ∧
    (∀ s, LineStart "ab\n\ncd".toList 3 s ↔ s = 4) ∧
    ∀ q ≤ "ab\n\ncd".length, (malformed "" "ab\n\ncd" q "").place? = some (3, 1) → q = 4 := by
  have hp : 4 ≤ "ab\n\ncd".length := by decide +kernel
  have hplace : (malformed "" "ab\n\ncd" 4 "").place? = some (3, 1) := by decide +kernel
  obtain ⟨line, column, heq, -, -, ⟨start, hstart, hcolumn, -⟩, hother⟩ :=
    place?_recovers_position hp "" ""
  obtain ⟨rfl, rfl⟩ := Prod.mk.inj (Option.some.inj (heq.symm.trans hplace))
  obtain rfl : start = 4 := by omega
  exact ⟨hp, hplace, hstart, fun q hq h => (hother q hq 3 1 h).1 rfl⟩

end FeatureError

end FeatureLattice
