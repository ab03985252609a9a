import FeatureLattice.Proofs.CommandResults

/-!
# Commands that fail

A command fails for the first reason there is, and for nothing else: the first of its texts that is
no written context, or else, for a check of laws, a limit that is not positive. Nothing has been
written out by then, as commands write last. The one line on the error stream is the report of the
reason.
-/
namespace FeatureLattice

/-- With an error there is nothing on the output stream, in either format, and one line on the error
stream of a program that was not asked to log. -/
structure Outcome.FailsWith (o : Outcome) (e : FeatureError) : Prop where
  exitCode_eq : o.exitCode = 2
  output_eq : ∀ format, o.output format = ""
  errors_eq : ∀ stamp, o.errors {} stamp = "featureflow: error: " ++ e.report ++ "\n"

/-- With an answer, which is all that is written out, there is no error to report. -/
structure Outcome.Succeeds (o : Outcome) : Prop where
  answer : ∃ a, o.result = .ok a ∧ o.written = [a]
  exitCode_eq : o.exitCode = 0 ∨ o.exitCode = 1
  errorLine_eq : o.errorLine = ""

namespace Outcome

variable {o : Outcome} {e : FeatureError} {a : Answer}

/-- Unless it is asked to log, the program shows nothing below a warning. -/
theorem errors_eq_errorLine (h : ∀ r ∈ o.log, r.level ≠ .warning) (stamp : String) :
    o.errors {} stamp = o.errorLine := by
  have hline : ∀ r ∈ o.log, Logger.line {} stamp r = "" := by
    intro r hr
    have hlevel := h r hr
    cases hr' : r.level <;> simp_all [Logger.line, LogLevel.rank]
  have hlines : o.log.map (Logger.line {} stamp) = o.log.map fun _ => "" :=
    List.map_congr_left hline
  have hjoin : ∀ rs : List LogRecord, String.join (rs.map fun _ => "") = "" := by
    intro rs
    induction rs with
    | nil => rfl
    | cons r rs ih => simpa [String.join] using ih
  rw [errors, hlines, hjoin, String.empty_append]

/-- What a command that writes last has written is its answer, if it has one. -/
theorem WritesLast.written_eq (h : o.WritesLast) : o.written = o.result.toOption.toList := by
  cases h with
  | answered log a => exact written_answered log a
  | stopped log e => exact written_stopped log e

theorem WritesLast.failsWith (ho : o.WritesLast) (h : o.result = .error e)
    (hlog : ∀ r ∈ o.log, r.level ≠ .warning) : o.FailsWith e where
  exitCode_eq := by simp [exitCode, h]
  output_eq format := by simp [output, ho.written_eq, h, Except.toOption]
  errors_eq stamp := by simp [errors_eq_errorLine hlog, errorLine, h]

theorem WritesLast.succeeds (ho : o.WritesLast) (h : o.result = .ok a) : o.Succeeds where
  answer := ⟨a, h, by rw [ho.written_eq, h]; rfl⟩
  exitCode_eq := by cases hv : a.verdict <;> simp [exitCode, h, hv]
  errorLine_eq := by simp [errorLine, h]

end Outcome

namespace Context

theorem exists_read_eq_error {text : String} (h : ¬ ∃ c, ofText text = .ok c) :
    ∃ r, read text = .error r := by
  cases hread : read text with
  | ok c => exact absurd ⟨c, ofText_eq_ok_iff.2 hread⟩ h
  | error r => exact ⟨r, rfl⟩

/-- Texts that are all read make no difference to where reading one by one stops. -/
theorem readEach_append_error {before : List String} (h : ∀ t ∈ before, ∃ c, ofText t = .ok c)
    {text : String} {r : Rejection} (hr : read text = .error r) (after : List String) :
    readEach (before ++ text :: after) = .error (text, r) := by
  induction before with
  | nil => simp [readEach, hr]
  | cons t before ih =>
    obtain ⟨c, hc⟩ := h t List.mem_cons_self
    have hrest := ih fun t' ht' => h t' (List.mem_cons_of_mem t ht')
    simp [readEach, ofText_eq_ok_iff.1 hc, hrest]

/-- Of texts that are not all read there is a first one. -/
theorem exists_first_rejected {texts : List String}
    (h : ∃ text ∈ texts, ¬ ∃ c, ofText text = .ok c) :
    ∃ before text after r, texts = before ++ text :: after ∧
      (∀ t ∈ before, ∃ c, ofText t = .ok c) ∧ read text = .error r := by
  induction texts with
  | nil => simp at h
  | cons t texts ih =>
    by_cases ht : ∃ c, ofText t = .ok c
    · obtain ⟨text, hmem, hrejected⟩ := h
      have hlater : text ∈ texts := by
        rcases List.mem_cons.1 hmem with rfl | hlater
        · exact absurd ht hrejected
        · exact hlater
      obtain ⟨before, text', after, r, rfl, hbefore, hr⟩ := ih ⟨text, hlater, hrejected⟩
      exact ⟨t :: before, text', after, r, rfl, List.forall_mem_cons.2 ⟨ht, hbefore⟩, hr⟩
    · obtain ⟨r, hr⟩ := exists_read_eq_error ht
      exact ⟨[], t, texts, r, rfl, by simp, hr⟩

end Context

namespace Command

/-- The texts that a command reads as contexts, in order. -/
def texts : Command → List String
  | meet texts => texts
  | join texts => texts
  | check text _ => [text]
  | laws texts _ => texts

/-- The first reason why a command fails: a text that is no written context, behind texts that all
are, or a limit that is not positive, with texts that all are. -/
inductive FirstFault : Command → FeatureError → Prop
  | text {command : Command} {before after : List String} {text : String} {r : Rejection} :
      command.texts = before ++ text :: after → (∀ t ∈ before, ∃ c, Context.ofText t = .ok c) →
      Context.ofText text = .error (.reported (r.toError text)) →
      FirstFault command (r.toError text)
  | limit {texts : List String} {config : LawCheckConfig} :
      (∀ t ∈ texts, ∃ c, Context.ofText t = .ok c) → config.maxSamples ≤ 0 →
      FirstFault (laws texts config) (.lawCheck ["max_samples must be positive"] "")

/-- A command has a limit that is not positive. -/
def LimitInvalid (command : Command) : Prop :=
  ∃ texts config, command = laws texts config ∧ config.maxSamples ≤ 0

variable {l : MeetSemilattice Context} {command : Command} {e : FeatureError}

theorem readTexts_bind_of_error {texts : List String} {text : String} {r : Rejection}
    (h : Context.readEach texts = .error (text, r)) (next : List Context → Outcome) :
    readTexts texts >>= next = Outcome.stopped [rejected text r] (r.toError text) := by
  rw [readTexts, h]
  rfl

/-- What a command does first is to read its texts. -/
theorem attempt_of_readEach_error {text : String} {r : Rejection}
    (h : Context.readEach command.texts = .error (text, r)) :
    command.attempt l = .stopped [rejected text r] (r.toError text) := by
  cases command with
  | meet texts => exact readTexts_bind_of_error h _
  | join texts => exact readTexts_bind_of_error h _
  | laws texts config => exact readTexts_bind_of_error h _
  | check t features =>
    cases ht : Context.read t with
    | ok c => simp [texts, Context.readEach, ht] at h
    | error s =>
      simp only [texts, Context.readEach, ht, Except.error.injEq, Prod.mk.injEq] at h
      obtain ⟨rfl, rfl⟩ := h
      rw [attempt, readText, ht]
      rfl

theorem problems_of_limit {config : LawCheckConfig} (h : config.maxSamples ≤ 0) :
    config.problems = ["max_samples must be positive"] := if_pos h

theorem problems_eq_nil {config : LawCheckConfig} (h : 0 < config.maxSamples) :
    config.problems = [] := if_neg (Int.not_le.2 h)

/-- The limit of a check of laws is looked at when all texts are read. -/
theorem attempt_laws_of_limit {texts : List String} {cs : List Context} {config : LawCheckConfig}
    (h : Context.readEach texts = .ok cs) (hlimit : config.maxSamples ≤ 0) :
    (laws texts config).attempt l =
      .stopped [parsed cs.length] (.lawCheck ["max_samples must be positive"] "") := by
  rw [attempt, readTexts_of_readEach h, Activity.bind_of_ok rfl, checkLaws,
    MeetSemilattice.verifyLaws, problems_of_limit hlimit]
  rfl

/-- A command that has read its texts and has no invalid limit comes to an answer. -/
theorem exists_answer {cs : List Context} (h : Context.readEach command.texts = .ok cs)
    (hlimit : ¬ command.LimitInvalid) : ∃ log a, command.attempt l = .answered log a := by
  cases command with
  | meet texts => exact ⟨_, _, attempt_meet h⟩
  | join texts => exact ⟨_, _, attempt_join h⟩
  | check t features =>
    cases ht : Context.read t with
    | ok c => exact ⟨_, _, attempt_check ht features⟩
    | error s => simp [texts, Context.readEach, ht] at h
  | laws texts config =>
    have hpos : 0 < config.maxSamples :=
      Int.not_le.1 fun hle => hlimit ⟨texts, config, rfl, hle⟩
    have hlaws : ∃ failures, l.verifyLaws (standardSamples ++ cs) config = .ok failures := by
      rw [MeetSemilattice.verifyLaws, problems_eq_nil hpos]
      exact ⟨_, rfl⟩
    obtain ⟨failures, hfailures⟩ := hlaws
    exact ⟨_, _, attempt_laws h hfailures⟩

/-- On contexts no law is broken, and nothing but that is worth a warning. -/
theorem quiet_attempt {cs : List Context} (h : Context.readEach command.texts = .ok cs)
    (hlimit : ¬ command.LimitInvalid) :
    ∀ r ∈ (command.attempt Context.lattice).log, r.level ≠ .warning := by
  cases command with
  | meet texts =>
    have hattempt : (meet texts).attempt Context.lattice = _ := attempt_meet h
    simp [hattempt, parsed]
  | join texts =>
    have hattempt : (join texts).attempt Context.lattice = _ := attempt_join h
    simp [hattempt, parsed]
  | check t features =>
    cases ht : Context.read t with
    | ok c =>
      have hattempt : (check t features).attempt Context.lattice = _ := attempt_check ht features
      simp [hattempt]
    | error s => simp [texts, Context.readEach, ht] at h
  | laws texts config =>
    have hpos : 0 < config.maxSamples :=
      Int.not_le.1 fun hle => hlimit ⟨texts, config, rfl, hle⟩
    have hlaws := Context.readsAs_lattice.verifyLaws_eq_ok_nil hpos (standardSamples ++ cs)
    have hattempt : (laws texts config).attempt Context.lattice = _ := attempt_laws h hlaws
    simp [hattempt, lawsLog, parsed, verified]

/-- The first reason to fail is what a command fails with. -/
theorem FirstFault.failsWith (h : command.FirstFault e) : (command.run l).FailsWith e := by
  cases h with
  | @text _ before after t r' htexts hbefore ht =>
    have hrejected : ¬ ∃ c, Context.ofText t = .ok c := by simp [ht]
    obtain ⟨r, hr⟩ := Context.exists_read_eq_error hrejected
    have hfault : r.toError t = r'.toError t := by
      rw [Context.ofText, hr] at ht
      exact Fault.reported.inj (Except.error.inj ht)
    have hread : Context.readEach command.texts = .error (t, r) := by
      rw [htexts]
      exact Context.readEach_append_error hbefore hr after
    have hrun := run_of_attempt_error (attempt_of_readEach_error (l := l) hread)
    rw [← hfault]
    exact (writesLast_run l command).failsWith (by simp [hrun]) (by simp [hrun, rejected, failed])
  | limit htexts hlimit =>
    obtain ⟨cs, hread, -⟩ := Context.exists_readEach htexts
    have hrun := run_of_attempt_error (attempt_laws_of_limit (l := l) hread hlimit)
    exact (writesLast_run l _).failsWith (by simp [hrun]) (by simp [hrun, parsed, failed])

/-- There is a reason to fail if a text is no written context or the limit is not positive. -/
theorem exists_firstFault_iff :
    (∃ e, command.FirstFault e) ↔
      (∃ text ∈ command.texts, ¬ ∃ c, Context.ofText text = .ok c) ∨ command.LimitInvalid := by
  constructor
  · rintro ⟨e, h⟩
    cases h with
    | @text _ before after t r htexts hbefore ht =>
      exact .inl ⟨t, by rw [htexts]; simp, by simp [ht]⟩
    | limit htexts hlimit => exact .inr ⟨_, _, rfl, hlimit⟩
  · intro h
    by_cases hread : ∀ text ∈ command.texts, ∃ c, Context.ofText text = .ok c
    · obtain ⟨texts, config, rfl, hlimit⟩ := h.resolve_left fun ⟨text, hmem, hno⟩ =>
        hno (hread text hmem)
      exact ⟨_, .limit hread hlimit⟩
    · push Not at hread
      obtain ⟨before, text, after, r, htexts, hbefore, hr⟩ :=
        Context.exists_first_rejected (by simpa using hread)
      exact ⟨r.toError text, .text htexts hbefore (by rw [Context.ofText, hr])⟩

/-- **A command fails as a whole, with the first fault there is.** If some text is no written
context or the limit is not positive, the exit code is 2, nothing is written out in either format,
and the error stream gets the report of one error: of the first text that is not read, whatever the
limit is, or else of the limit. In all other cases there is an answer, with exit code 0 or 1, and
the error stream gets nothing. -/
theorem run_first_fault (l : MeetSemilattice Context) (command : Command) :
    ((∃ e, command.FirstFault e) ↔
      (∃ text ∈ command.texts, ¬ ∃ c, Context.ofText text = .ok c) ∨ command.LimitInvalid) ∧
    (∀ e, command.FirstFault e → (command.run l).FailsWith e) ∧
    ((¬ ∃ e, command.FirstFault e) → (command.run l).Succeeds ∧
      ∀ stamp, (command.run Context.lattice).errors {} stamp = "") := by
  refine ⟨exists_firstFault_iff, fun e h => h.failsWith, fun h => ?_⟩
  rw [exists_firstFault_iff, not_or] at h
  obtain ⟨hread, hlimit⟩ := h
  push Not at hread
  obtain ⟨cs, hcs, -⟩ := Context.exists_readEach (by simpa using hread)
  constructor
  · obtain ⟨log, a, hattempt⟩ := exists_answer (l := l) hcs hlimit
    exact (writesLast_run l command).succeeds (by rw [run_of_attempt hattempt]; rfl)
  · intro stamp
    obtain ⟨log, a, hattempt⟩ := exists_answer (l := Context.lattice) hcs hlimit
    have hquiet := quiet_attempt hcs hlimit
    rw [hattempt] at hquiet
    rw [run_of_attempt hattempt, Outcome.errors_eq_errorLine hquiet]
    rfl

/-- The second of three texts is not read. It is reported although the limit is not positive and
the third text is not read either. On the first text alone the limit is reported, and if that is
positive there is an answer. -/
theorem run_first_fault_second_text :
    ((laws ["\x7ba\x7d", "?", "\x7b"] ⟨0, true, true⟩).run Context.lattice).FailsWith
      ((⟨0, .opening⟩ : Rejection).toError "?") ∧
    ((laws ["\x7ba\x7d"] ⟨0, true, true⟩).run Context.lattice).FailsWith
      (.lawCheck ["max_samples must be positive"] "") ∧
    ((laws ["\x7ba\x7d"] ⟨1, true, true⟩).run Context.lattice).Succeeds := by
  have hread : ∀ t ∈ ["\x7ba\x7d"], ∃ c, Context.ofText t = .ok c := by
    simpa using ⟨Context.of ["a"], Context.ofText_eq_ok_iff.2 (by decide +kernel)⟩
  have hrejected : Context.read "?" = .error ⟨0, .opening⟩ := by decide +kernel
  obtain ⟨-, htext, -⟩ :=
    run_first_fault Context.lattice (laws ["\x7ba\x7d", "?", "\x7b"] ⟨0, true, true⟩)
  obtain ⟨-, hlimit, -⟩ := run_first_fault Context.lattice (laws ["\x7ba\x7d"] ⟨0, true, true⟩)
  obtain ⟨hfault, -, hanswer⟩ :=
    run_first_fault Context.lattice (laws ["\x7ba\x7d"] ⟨1, true, true⟩)
  have hsecond : (laws ["\x7ba\x7d", "?", "\x7b"] ⟨0, true, true⟩).FirstFault
      ((⟨0, .opening⟩ : Rejection).toError "?") :=
    @FirstFault.text _ ["\x7ba\x7d"] ["\x7b"] "?" _ rfl hread (by rw [Context.ofText, hrejected])
  refine ⟨htext _ hsecond, hlimit _ (.limit hread (by decide)), (hanswer ?_).1⟩
  rw [hfault, not_or]
  constructor
  · rintro ⟨t, ht, hno⟩
    exact hno (hread t ht)
  · rintro ⟨texts, config, heq, hle⟩
    cases heq
    exact absurd hle (by decide)

end Command

end FeatureLattice
