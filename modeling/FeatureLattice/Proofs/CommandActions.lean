import FeatureLattice.Command

/-!
# One write, as the last action

Reading texts and checking laws is silent: all that can be seen of it is what is logged. Each
command puts such parts in front of its answer. So it writes once, and after that it does nothing
more; if it ends with an error, it has not written anything. This is shown from the parts: silent
parts in a row are silent, and a silent part in front of a command that writes last leaves it so.
-/
namespace FeatureLattice

namespace Event

theorem filterMap_record?_logged (log : List LogRecord) :
    (log.map logged).filterMap record? = log := by
  simp [Function.comp_def, record?]

theorem filterMap_answer?_logged (log : List LogRecord) :
    (log.map logged).filterMap answer? = [] := by
  simp [answer?]

end Event

namespace Activity

variable {α β : Type} {x : Activity α} {next : α → Activity β}

theorem bind_of_ok {a : α} (h : x.result = .ok a) :
    x >>= next = ⟨x.events ++ (next a).events, (next a).result⟩ := by
  simp only [bind, h]

theorem bind_of_error {e : FeatureError} (h : x.result = .error e) :
    x >>= next = ⟨x.events, .error e⟩ := by
  simp only [bind, h]

/-- All that can be seen of an action is what it logs. -/
def Silent (x : Activity α) : Prop := ∃ log : List LogRecord, x.events = log.map .logged

theorem silent_pure (a : α) : (pure a : Activity α).Silent := ⟨[], rfl⟩

theorem silent_record (r : LogRecord) : (record r).Silent := ⟨[r], rfl⟩

theorem silent_fail (e : FeatureError) : (fail e : Activity α).Silent := ⟨[], rfl⟩

theorem Silent.bind (hx : x.Silent) (hnext : ∀ a, (next a).Silent) : (x >>= next).Silent := by
  obtain ⟨log, hlog⟩ := hx
  cases h : x.result with
  | error e => exact ⟨log, by rw [bind_of_error h, hlog]⟩
  | ok a =>
    obtain ⟨log', hlog'⟩ := hnext a
    exact ⟨log ++ log', by rw [bind_of_ok h, hlog, hlog', List.map_append]⟩

end Activity

namespace Outcome

/-- What a command leaves that logs some records and then writes its answer. -/
def answered (log : List LogRecord) (a : Answer) : Outcome :=
  ⟨log.map .logged ++ [.written a], .ok a⟩

/-- What a command leaves that logs some records and then ends with an error. -/
def stopped (log : List LogRecord) (e : FeatureError) : Outcome := ⟨log.map .logged, .error e⟩

section

variable (log : List LogRecord) (a : Answer) (e : FeatureError)

@[simp] theorem result_answered : (answered log a).result = .ok a := rfl

@[simp] theorem log_answered : (answered log a).log = log := by
  rw [Outcome.log, answered, List.filterMap_append, Event.filterMap_record?_logged]
  exact List.append_nil log

@[simp] theorem written_answered : (answered log a).written = [a] := by
  rw [written, answered, List.filterMap_append, Event.filterMap_answer?_logged]
  rfl

@[simp] theorem output_answered (format : OutputFormat) :
    (answered log a).output format = a.output format := by
  simp [output, String.join]

@[simp] theorem result_stopped : (stopped log e).result = .error e := rfl

@[simp] theorem log_stopped : (stopped log e).log = log :=
  Event.filterMap_record?_logged log

@[simp] theorem written_stopped : (stopped log e).written = [] :=
  Event.filterMap_answer?_logged log

end

/-- The answer is written once, as the last action, and before an error nothing is written. -/
inductive WritesLast : Outcome → Prop
  | answered (log : List LogRecord) (a : Answer) : WritesLast (answered log a)
  | stopped (log : List LogRecord) (e : FeatureError) : WritesLast (stopped log e)

theorem WritesLast.logging {o : Outcome} (h : o.WritesLast) (log : List LogRecord) :
    WritesLast ⟨log.map .logged ++ o.events, o.result⟩ := by
  cases h with
  | answered log' a =>
    have hrest : (⟨log.map .logged ++ (log'.map .logged ++ [.written a]), .ok a⟩ : Outcome) =
        Outcome.answered (log ++ log') a := by simp [Outcome.answered]
    exact hrest ▸ .answered (log ++ log') a
  | stopped log' e =>
    have hrest : (⟨log.map .logged ++ log'.map .logged, .error e⟩ : Outcome) =
        Outcome.stopped (log ++ log') e := by simp [Outcome.stopped]
    exact hrest ▸ .stopped (log ++ log') e

/-- A silent part in front does not change what is written and when. -/
theorem WritesLast.of_bind {α : Type} {x : Activity α} {next : α → Outcome} (hx : x.Silent)
    (hnext : ∀ a, (next a).WritesLast) : WritesLast (x >>= next) := by
  obtain ⟨log, hlog⟩ := hx
  cases h : x.result with
  | error e =>
    rw [Activity.bind_of_error h, hlog]
    exact .stopped log e
  | ok a =>
    rw [Activity.bind_of_ok h, hlog]
    exact (hnext a).logging log

end Outcome

namespace Command

open Activity Outcome

theorem silent_reject {α : Type} (text : String) (r : Rejection) :
    (reject text r : Activity α).Silent :=
  (silent_record _).bind fun _ => silent_fail _

theorem silent_readText (text : String) : (readText text).Silent := by
  unfold readText
  split
  · exact silent_reject _ _
  · exact silent_pure _

theorem silent_readTexts (texts : List String) : (readTexts texts).Silent := by
  unfold readTexts
  split
  · exact silent_reject _ _
  · exact (silent_record _).bind fun _ => silent_pure _

theorem silent_checkLaws (l : MeetSemilattice Context) (samples : List Context)
    (config : LawCheckConfig) : (checkLaws l samples config).Silent := by
  unfold checkLaws
  split
  · exact silent_fail _
  · exact (silent_record _).bind fun _ => silent_pure _

theorem silent_warn (failures : List (LawFailure Context)) : (warn failures).Silent := by
  unfold warn
  split
  · exact silent_pure _
  · exact silent_record _

theorem writesLast_answer (a : Answer) : (answer a).WritesLast := .answered [] a

theorem writesLast_attempt (l : MeetSemilattice Context) (command : Command) :
    (command.attempt l).WritesLast := by
  cases command with
  | meet texts => exact .of_bind (silent_readTexts texts) fun _ => writesLast_answer _
  | join texts => exact .of_bind (silent_readTexts texts) fun _ => writesLast_answer _
  | check text features => exact .of_bind (silent_readText text) fun _ => writesLast_answer _
  | laws texts config =>
    refine .of_bind (silent_readTexts texts) fun cs => ?_
    refine .of_bind (silent_checkLaws l (standardSamples ++ cs) config) fun failures => ?_
    exact .of_bind (silent_warn failures) fun _ => writesLast_answer _

theorem run_of_attempt {l : MeetSemilattice Context} {command : Command} {log : List LogRecord}
    {a : Answer} (h : command.attempt l = .answered log a) : command.run l = .answered log a := by
  simp [run, h]

theorem run_of_attempt_error {l : MeetSemilattice Context} {command : Command}
    {log : List LogRecord} {e : FeatureError} (h : command.attempt l = .stopped log e) :
    command.run l = .stopped (log ++ [command.failed]) e := by
  simp [run, h, stopped]

/-- **A command writes once, as the last thing that it does, or not at all.** -/
theorem writesLast_run (l : MeetSemilattice Context) (command : Command) :
    (command.run l).WritesLast := by
  have hattempt := writesLast_attempt l command
  generalize houtcome : command.attempt l = outcome at hattempt
  cases hattempt with
  | answered log a =>
    rw [run_of_attempt houtcome]
    exact .answered log a
  | stopped log e =>
    rw [run_of_attempt_error houtcome]
    exact .stopped (log ++ [command.failed]) e

end Command

end FeatureLattice
