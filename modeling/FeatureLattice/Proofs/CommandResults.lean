import FeatureLattice.Proofs.CommandActions
import FeatureLattice.Proofs.LawfulLattices
import FeatureLattice.Proofs.WrittenForm

/-!
# What commands answer

On texts that are all read, a command goes on with the contexts they denote. The answer of `meet`
and `join` is a context in two forms, a written one and a document with a list of names or with
nothing. They are made apart from each other, and each leads back to the same context. The answer of
`laws` says that nothing is broken, whatever is read.
-/
namespace FeatureLattice

namespace Context

theorem ofText_eq_ok_iff {text : String} {c : Context} :
    ofText text = .ok c ↔ read text = .ok c := by
  unfold ofText
  cases read text <;> simp

/-- Reading texts one by one succeeds when each is read, with their contexts in order. -/
theorem readEach_eq_ok_iff {texts : List String} {cs : List Context} :
    readEach texts = .ok cs ↔ List.Forall₂ (fun text c => ofText text = .ok c) texts cs := by
  induction texts generalizing cs with
  | nil => cases cs <;> simp [readEach]
  | cons text texts ih =>
    have htext : ∀ c, ofText text = .ok c ↔ read text = .ok c := fun _ => ofText_eq_ok_iff
    simp only [readEach, List.forall₂_cons_left_iff, ← ih, htext]
    cases read text with
    | error r => simp
    | ok c => cases readEach texts <;> simp [eq_comm]

/-- Texts that are all read have contexts: those that some of the texts denotes. -/
theorem exists_readEach {texts : List String} (h : ∀ text ∈ texts, ∃ c, ofText text = .ok c) :
    ∃ cs, readEach texts = .ok cs ∧ ∀ c, c ∈ cs ↔ ∃ text ∈ texts, ofText text = .ok c := by
  induction texts with
  | nil => exact ⟨[], rfl, by simp⟩
  | cons text texts ih =>
    obtain ⟨c, hc⟩ := h text List.mem_cons_self
    obtain ⟨cs, hcs, hmem⟩ := ih fun t ht => h t (List.mem_cons_of_mem text ht)
    refine ⟨c :: cs, readEach_eq_ok_iff.2 (.cons hc (readEach_eq_ok_iff.1 hcs)), fun d => ?_⟩
    simp [hmem, hc, eq_comm]

/-- A document from which a context is built again: null is the missing value, and a list of names
stands for itself. The names are in strictly ascending order. -/
inductive RebuiltFrom : Text.Json → Context → Prop
  | null {c : Context} : (∀ nb, ofOptional nb .absent = .ok c) → RebuiltFrom .null c
  | names {names : List String} {c : Context} : names.Pairwise (· < ·) →
      (∀ nb, ofOptional nb (.sequence .list (names.map .str)) = .ok c) →
      RebuiltFrom (.arr (names.map .str)) c

theorem of_names (s : NameSet) : of s.names = concrete s := of_eq_concrete fun _ => Iff.rfl

/-- The document of a context leads back to it. -/
theorem rebuiltFrom_document (c : Context) : RebuiltFrom c.document c := by
  cases c with
  | universal => exact .null fun _ => rfl
  | concrete s =>
    refine .names s.ascending fun nb => ?_
    have hunequal : Unequal s.names := s.ascending.imp fun h => beq_eq_false_iff_ne.2 (ne_of_lt h)
    have hbuilt := construct_texts nb s.names
    rwa [distinct_of_unequal hunequal, of_names] at hbuilt

end Context

namespace Command

variable {l : MeetSemilattice Context} {texts : List String} {cs : List Context}

theorem readTexts_of_readEach (h : Context.readEach texts = .ok cs) :
    readTexts texts = ⟨[.logged (parsed cs.length)], .ok cs⟩ := by
  rw [readTexts, h]
  rfl

theorem attempt_meet (h : Context.readEach texts = .ok cs) :
    (meet texts).attempt l = .answered [parsed cs.length] (resultAnswer (l.meetAll cs)) := by
  rw [attempt, readTexts_of_readEach h]
  rfl

theorem attempt_join (h : Context.readEach texts = .ok cs) :
    (join texts).attempt l = .answered [parsed cs.length] (resultAnswer (Context.joinAll cs)) := by
  rw [attempt, readTexts_of_readEach h]
  rfl

theorem attempt_check {text : String} {c : Context} (h : Context.read text = .ok c)
    (features : List String) :
    (check text features).attempt l = .answered [] (checkAnswer c features) := by
  rw [attempt, readText, h]
  rfl

/-- What a check of laws logs, given the numbers of contexts read, of samples and of failures. -/
def lawsLog (contexts samples failures : Nat) : List LogRecord :=
  parsed contexts :: verified samples failures ::
    if failures = 0 then [] else [violationsFound failures]

theorem checkLaws_of_verifyLaws {samples : List Context} {config : LawCheckConfig}
    {failures : List (LawFailure Context)} (h : l.verifyLaws samples config = .ok failures) :
    checkLaws l samples config = ⟨[.logged (verified
      (MeetSemilattice.checkedSamples config samples).length failures.length)], .ok failures⟩ := by
  rw [checkLaws, h]
  rfl

theorem attempt_laws {config : LawCheckConfig} {failures : List (LawFailure Context)}
    (h : Context.readEach texts = .ok cs)
    (hlaws : l.verifyLaws (standardSamples ++ cs) config = .ok failures) :
    (laws texts config).attempt l = .answered
      (lawsLog cs.length (MeetSemilattice.checkedSamples config (standardSamples ++ cs)).length
        failures.length)
      (lawsAnswer failures) := by
  rw [attempt, readTexts_of_readEach h, Activity.bind_of_ok rfl, checkLaws_of_verifyLaws hlaws]
  cases failures <;> rfl

end Command

/-- A command has succeeded with a context for an answer, in both formats: the text reads back as
the context, and the context is built again from the one field of the document. -/
structure Outcome.Answers (o : Outcome) (c : Context) : Prop where
  exitCode_eq : o.exitCode = 0
  text : o.output .text = c.written ++ "\n"
  ofText_text : Context.ofText c.written = .ok c
  json : ∃ a payload, o.result = .ok a ∧ o.output .json = a.document.text ++ "\n" ∧
    a.document = .obj [("result", payload)] ∧ Context.RebuiltFrom payload c

/-- An outcome with the answer of `meet` and `join` for a context answers with it. -/
theorem Outcome.answers_resultAnswer (log : List LogRecord) (c : Context) :
    Outcome.Answers (.answered log (Command.resultAnswer c)) c where
  exitCode_eq := rfl
  text := Outcome.output_answered _ _ _
  ofText_text := Context.ofText_eq_ok_iff.2 c.read_written
  json := ⟨_, c.document, rfl, Outcome.output_answered _ _ _, rfl, c.rebuiltFrom_document⟩

namespace Command

/-- On texts that are all read, also on none, `meet` answers with a context that enables what all
the contexts enable, and `join` with one that enables what some of them enables. -/
theorem run_meet_join_answer (texts : List String)
    (h : ∀ text ∈ texts, ∃ c, Context.ofText text = .ok c) :
    (∃ m, ((meet texts).run Context.lattice).Answers m ∧ ∀ x, m.enables x = true ↔
      ∀ text ∈ texts, ∀ c, Context.ofText text = .ok c → c.enables x = true) ∧
    (∃ j, ((join texts).run Context.lattice).Answers j ∧ ∀ x, j.enables x = true ↔
      ∃ text ∈ texts, ∃ c, Context.ofText text = .ok c ∧ c.enables x = true) := by
  obtain ⟨cs, hcs, hmem⟩ := Context.exists_readEach h
  constructor
  · refine ⟨Context.lattice.meetAll cs, ?_, fun x => ?_⟩
    · rw [run_of_attempt (attempt_meet hcs)]
      exact Outcome.answers_resultAnswer _ _
    · simp only [Context.enables_meetAll, hmem]
      exact ⟨fun hall t ht c hc => hall c ⟨t, ht, hc⟩, fun hall c ⟨t, ht, hc⟩ => hall t ht c hc⟩
  · refine ⟨Context.joinAll cs, ?_, fun x => ?_⟩
    · rw [run_of_attempt (attempt_join hcs)]
      exact Outcome.answers_resultAnswer _ _
    · simp only [Context.enables_joinAll, hmem]
      exact ⟨fun ⟨c, ⟨t, ht, hc⟩, hx⟩ => ⟨t, ht, c, hc, hx⟩,
        fun ⟨t, ht, c, hc, hx⟩ => ⟨c, ⟨t, ht, hc⟩, hx⟩⟩

/-- The star and a list with a quoted name and a last comma: the name is in both answers, and any
other one in the answer of `join`. -/
theorem run_meet_join_answer_quoted :
    (∀ text ∈ ["*", "\x7bnet , \"a b\",\x7d"], ∃ c, Context.ofText text = .ok c) ∧
    (∃ m, ((meet ["*", "\x7bnet , \"a b\",\x7d"]).run Context.lattice).Answers m ∧
      m.enables "a b" = true ∧ m.enables "log" = false) ∧
    (∃ j, ((join ["*", "\x7bnet , \"a b\",\x7d"]).run Context.lattice).Answers j ∧
      j.enables "log" = true) := by
  have hstar : Context.ofText "*" = .ok .universal := rfl
  have hlist : Context.ofText "\x7bnet , \"a b\",\x7d" = .ok (Context.of ["net", "a b"]) :=
    Context.ofText_eq_ok_iff.2 (by decide +kernel)
  have hread : ∀ text ∈ ["*", "\x7bnet , \"a b\",\x7d"], ∃ c, Context.ofText text = .ok c := by
    simp [hstar, hlist]
  obtain ⟨⟨m, hm, hmeet⟩, ⟨j, hj, hjoin⟩⟩ := run_meet_join_answer _ hread
  refine ⟨hread, ⟨m, hm, ?_, ?_⟩, ⟨j, hj, ?_⟩⟩
  · simp [hmeet, hstar, hlist]
  · rw [← Bool.not_eq_true, hmeet]
    simp [hstar, hlist]
  · rw [hjoin]
    exact ⟨"*", by simp, .universal, hstar, rfl⟩

end Command

/-- A check of the laws of contexts finds nothing, whatever the samples and whatever is asked for,
if the limit is valid. So the command `laws`, which adds the universal and the empty context to
those that it reads, reports no violation. Nor does a check of the smaller of two numbers, with
truth values, whole and floating-point numbers side by side. -/
theorem verifyLaws_finds_nothing (config : LawCheckConfig) (hpos : 0 < config.maxSamples) :
    (∀ samples : List Context, Context.lattice.verifyLaws samples config = .ok []) ∧
    (∀ texts, (∀ text ∈ texts, ∃ c, Context.ofText text = .ok c) →
      ∃ cs o, Context.readEach texts = .ok cs ∧ (Command.laws texts config).run Context.lattice = o ∧
        o.exitCode = 0 ∧ o.output .text = "--- 0 violation(s) ---\n" ∧
        o.output .json = "\x7b\"violations\": []\x7d\n" ∧
        o.log = [Command.parsed texts.length, Command.verified (MeetSemilattice.checkedSamples
          config ([.universal, .empty] ++ cs)).length 0]) ∧
    ∀ samples : List Number, Number.minLattice.verifyLaws samples config = .ok [] := by
  have hcontexts := Context.readsAs_lattice.verifyLaws_eq_ok_nil hpos
  refine ⟨hcontexts, fun texts h => ?_, Number.readsAs_minLattice.verifyLaws_eq_ok_nil hpos⟩
  obtain ⟨cs, hcs, -⟩ := Context.exists_readEach h
  have hrun := Command.run_of_attempt (Command.attempt_laws hcs (hcontexts _))
  have hlength := (Context.readEach_eq_ok_iff.1 hcs).length_eq
  refine ⟨cs, _, hcs, hrun, rfl, ?_, ?_, ?_⟩
  · exact Outcome.output_answered _ _ _
  · exact Outcome.output_answered _ _ _
  · rw [Outcome.log_answered, hlength]
    rfl

/-- A check that leaves associativity out and is cut after two samples, and the number one of all
three kinds below infinity. -/
theorem verifyLaws_finds_nothing_cut :
    (0 : Int) < 2 ∧
    Context.lattice.verifyLaws [.of ["a"], .universal, .of ["a", "b"]] ⟨2, false, true⟩ = .ok [] ∧
    ((Command.laws ["*", "\x7b\x7d"] ⟨2, false, true⟩).run Context.lattice).exitCode = 0 ∧
    Number.minLattice.verifyLaws [.bool true, .float .infinity, .int 1,
      .float ⟨"1.0", .finite 1, by decide +kernel⟩] ⟨2, false, true⟩ = .ok [] := by
  obtain ⟨hcontexts, hcommand, hnumbers⟩ :=
    verifyLaws_finds_nothing ⟨2, false, true⟩ (by decide)
  obtain ⟨cs, o, -, rfl, hcode, -⟩ := hcommand ["*", "\x7b\x7d"] (by
    have hstar : Context.ofText "*" = .ok .universal := rfl
    have hnone : Context.ofText "\x7b\x7d" = .ok .empty := rfl
    simp [hstar, hnone])
  exact ⟨by decide, hcontexts _, hcode, hnumbers _⟩

end FeatureLattice
