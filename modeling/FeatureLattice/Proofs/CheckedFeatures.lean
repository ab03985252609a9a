import FeatureLattice.Proofs.CommandResults

/-!
# What a check of features answers

A check of features in a written context says of each feature whether the context enables it: as a
line of text, as a member of a document, and all in all by the exit code. A feature that is asked
for again is not reported again, in either format. So the entries are the features in the order in
which they come up first, each with its status in the context that the text denotes.
-/
namespace FeatureLattice

/-- The members of a list, each once, in the order in which they come up first. -/
structure FirstOccurrences {α : Type} [BEq α] (xs firsts : List α) : Prop where
  mem_iff : ∀ x, x ∈ firsts ↔ x ∈ xs
  ordered : firsts.Pairwise fun x y => xs.idxOf x < xs.idxOf y

section Lawful

variable {α : Type} [BEq α] [LawfulBEq α] {x : α} {xs firsts : List α}

theorem occursIn_iff_mem : occursIn x xs = true ↔ x ∈ xs := by
  simp [occursIn_iff]

/-- One more member at the end comes first only if it is new. -/
theorem FirstOccurrences.addNew (h : FirstOccurrences xs firsts) (x : α) :
    FirstOccurrences (xs ++ [x]) (addNew firsts x) := by
  have hold : ∀ y ∈ firsts, (xs ++ [x]).idxOf y = xs.idxOf y := fun y hy => by
    rw [List.idxOf_append, if_pos ((h.mem_iff y).1 hy)]
  have hordered : firsts.Pairwise fun y z => (xs ++ [x]).idxOf y < (xs ++ [x]).idxOf z :=
    h.ordered.imp_of_mem fun hy hz hlt => by rwa [hold _ hy, hold _ hz]
  unfold FeatureLattice.addNew
  split
  · rename_i hx
    have hmem : x ∈ xs := (h.mem_iff x).1 (occursIn_iff_mem.1 hx)
    refine ⟨fun y => ?_, hordered⟩
    rw [h.mem_iff, List.mem_append, List.mem_singleton]
    exact ⟨.inl, fun hy => hy.elim id fun he => he ▸ hmem⟩
  · rename_i hx
    have hnew : ¬ x ∈ xs := fun hmem => hx (occursIn_iff_mem.2 ((h.mem_iff x).2 hmem))
    refine ⟨fun y => by simp [h.mem_iff], List.pairwise_append.2 ⟨hordered, by simp, ?_⟩⟩
    intro y hy z hz
    obtain rfl := List.mem_singleton.1 hz
    have hlt : xs.idxOf y < xs.length := List.idxOf_lt_length_of_mem ((h.mem_iff y).1 hy)
    rw [hold y hy, List.idxOf_append, if_neg hnew]
    omega

theorem FirstOccurrences.foldl_addNew {seen : List α} (h : FirstOccurrences seen firsts)
    (xs : List α) : FirstOccurrences (seen ++ xs) (xs.foldl FeatureLattice.addNew firsts) := by
  induction xs generalizing seen firsts with
  | nil => simpa using h
  | cons x xs ih =>
    rw [List.append_cons]
    exact ih (h.addNew x)

/-- Dropping repetitions leaves the first occurrences, in their order. -/
theorem firstOccurrences_distinct (xs : List α) : FirstOccurrences xs (distinct xs) :=
  FirstOccurrences.foldl_addNew ⟨fun _ => Iff.rfl, List.Pairwise.nil⟩ xs

end Lawful

/-- The line of text that shows the status of a feature. -/
def statusLine (feature : String) (enabled : Bool) : String :=
  feature ++ ": " ++ if enabled then "enabled" else "disabled"

/-- A check of features in a context has been answered, in both formats: there is one entry for each
feature, in the order of first occurrences, and it tells whether the context enables the feature.
The document also has a value from which the context is built again. -/
structure Outcome.Reports (o : Outcome) (c : Context) (features : List String) : Prop where
  exitCode_eq_zero_iff : o.exitCode = 0 ↔ ∀ x ∈ features, c.enables x = true
  exitCode_eq_one_iff : o.exitCode = 1 ↔ ∃ x ∈ features, c.enables x = false
  entries : ∃ firsts, FirstOccurrences features firsts ∧
    o.output .text = "\n".intercalate (firsts.map fun x => statusLine x (c.enables x)) ++ "\n" ∧
    ∃ a payload, o.result = .ok a ∧ o.output .json = a.document.text ++ "\n" ∧
      a.document = .obj [("context", payload),
        ("features", .obj (firsts.map fun x => (x, .bool (c.enables x))))] ∧
      Context.RebuiltFrom payload c

namespace Command

/-- The answer to a check is negative if some feature that is asked for is disabled. -/
theorem verdict_checkAnswer (c : Context) (features : List String) :
    (checkAnswer c features).verdict = true ↔ ∀ x ∈ features, c.enables x = true := by
  have hmem (x : String) : x ∈ distinct features ↔ x ∈ features :=
    (firstOccurrences_distinct features).mem_iff x
  simp [checkAnswer, hmem]

theorem reports_checkAnswer (log : List LogRecord) (c : Context) (features : List String) :
    Outcome.Reports (.answered log (checkAnswer c features)) c features where
  exitCode_eq_zero_iff := by
    rw [← verdict_checkAnswer]
    cases h : (checkAnswer c features).verdict <;> simp [Outcome.exitCode, h]
  exitCode_eq_one_iff := by
    have hverdict := verdict_checkAnswer c features
    cases h : (checkAnswer c features).verdict <;> simp_all [Outcome.exitCode]
  entries := by
    refine ⟨distinct features, firstOccurrences_distinct features, ?_, checkAnswer c features,
      c.document, rfl, Outcome.output_answered _ _ _, ?_, c.rebuiltFrom_document⟩
    · simp [Answer.output, checkAnswer, statusLine, Function.comp_def]
    · simp [checkAnswer, Function.comp_def]

/-- **A check answers membership in the set that a text denotes.** For every text that is read and
every list of features, repetitions included, the exit code is 0 if all of them are enabled in the
context and 1 if some are not, and both formats have one entry for each feature, in the order of
first occurrences, with its status. For a context in its written form this is the status in the
context itself. -/
theorem run_check_reports (l : MeetSemilattice Context) (features : List String) :
    (∀ text c, Context.ofText text = .ok c → ((check text features).run l).Reports c features) ∧
    ∀ c : Context, ((check c.written features).run l).Reports c features := by
  have hrun : ∀ text c, Context.ofText text = .ok c →
      ((check text features).run l).Reports c features := by
    intro text c h
    rw [run_of_attempt (attempt_check (Context.ofText_eq_ok_iff.1 h) features)]
    exact reports_checkAnswer [] c features
  exact ⟨hrun, fun c => hrun _ c (Context.ofText_eq_ok_iff.2 c.read_written)⟩

/-- A name with a line feed is asked for twice and enabled, a name without characters is not. -/
theorem run_check_reports_strange :
    Context.ofText "\x7b\"a\nb\", net,\x7d" = .ok (.of ["a\nb", "net"]) ∧
    ((check "\x7b\"a\nb\", net,\x7d" ["a\nb", "", "a\nb"]).run Context.lattice).Reports
      (.of ["a\nb", "net"]) ["a\nb", "", "a\nb"] ∧
    ((check "\x7b\"a\nb\", net,\x7d" ["a\nb", "", "a\nb"]).run Context.lattice).exitCode = 1 := by
  have hread : Context.ofText "\x7b\"a\nb\", net,\x7d" = .ok (.of ["a\nb", "net"]) :=
    Context.ofText_eq_ok_iff.2 (by decide +kernel)
  obtain ⟨hrun, -⟩ := run_check_reports Context.lattice ["a\nb", "", "a\nb"]
  have hreports := hrun _ _ hread
  exact ⟨hread, hreports, hreports.exitCode_eq_one_iff.2 ⟨"", by simp, by decide⟩⟩

end Command

end FeatureLattice
