import FeatureLattice.FeatureError
import FeatureLattice.Lattice.Contexts
import FeatureLattice.Lattice.Violation
import FeatureLattice.Log
import FeatureLattice.Text.Json

/-!
# Commands

What the program does for its users: the meet or the join of written contexts, a check of features
in a context, and a check of the lattice laws on contexts. All texts are read before anything is
computed, and the first one that is no written context ends the command. A command is a sequence of
actions: it logs records, writes its answer to the output stream, or ends with an error. What it has
done by then is kept, so that it can be asked whether anything was written before an error.
-/
namespace FeatureLattice

inductive OutputFormat where
  | text
  | json
  deriving DecidableEq

/-- A command with its arguments. -/
inductive Command where
  | meet (texts : List String)
  | join (texts : List String)
  | check (text : String) (features : List String)
  | laws (texts : List String) (config : LawCheckConfig)

/-- The answer to a command in both formats. The verdict is no if a checked feature is disabled or
a law is broken. -/
structure Answer where
  document : Text.Json
  text : String
  verdict : Bool := true

/-- What a command does that can be seen from outside. -/
inductive Event where
  | logged (r : LogRecord)
  /-- The answer goes to the output stream, in the format that was asked for. -/
  | written (a : Answer)

namespace Event

def record? : Event → Option LogRecord
  | logged r => some r
  | written _ => none

def answer? : Event → Option Answer
  | logged _ => none
  | written a => some a

end Event

/-- What a part of a command does, in order, and the value or the error that it ends with. -/
structure Activity (α : Type) where
  events : List Event
  result : Except FeatureError α

namespace Activity

/-- After an error nothing more is done. -/
instance : Monad Activity where
  pure a := ⟨[], .ok a⟩
  bind x next :=
    match x.result with
    | .ok a => ⟨x.events ++ (next a).events, (next a).result⟩
    | .error e => ⟨x.events, .error e⟩

def record (r : LogRecord) : Activity Unit := ⟨[.logged r], .ok ()⟩

def write (a : Answer) : Activity Unit := ⟨[.written a], .ok ()⟩

def fail {α : Type} (e : FeatureError) : Activity α := ⟨[], .error e⟩

end Activity

/-- What came of a command: all that it did, and the answer that it ended with or the error. -/
abbrev Outcome := Activity Answer

namespace Context

/-- A context as a document: all names in ascending order, or null for the universal context. -/
def document : Context → Text.Json
  | universal => .null
  | concrete s => .arr (s.names.map .str)

/-- Read texts up to the first that is no written context. -/
def readEach : List String → Except (String × Rejection) (List Context)
  | [] => .ok []
  | text :: texts =>
    match read text with
    | .error r => .error (text, r)
    | .ok c =>
      match readEach texts with
      | .error e => .error e
      | .ok cs => .ok (c :: cs)

end Context

namespace Command

def name : Command → String
  | meet _ => "meet"
  | join _ => "join"
  | check _ _ => "check"
  | laws _ _ => "laws"

/-- The record of a text that is no written context. -/
def rejected (text : String) (r : Rejection) : LogRecord :=
  ⟨.debug, "featureflow.notation",
    "Rejected context literal " ++ Text.quote text ++ " at " ++ toString r.position⟩

/-- The record of the number of contexts read. -/
def parsed (count : Nat) : LogRecord :=
  ⟨.info, "featureflow", "Parsed " ++ toString count ++ " context(s)"⟩

/-- The record of a check of laws. -/
def verified (samples failures : Nat) : LogRecord :=
  ⟨.debug, "featureflow.lattice",
    "verify_laws: " ++ toString samples ++ " sample(s), " ++ toString failures ++ " violation(s)"⟩

/-- The record of broken laws. -/
def violationsFound (failures : Nat) : LogRecord :=
  ⟨.warning, "featureflow", toString failures ++ " law violation(s) found"⟩

/-- The record of a command without an answer. -/
def failed (command : Command) : LogRecord :=
  ⟨.debug, "featureflow", "Command " ++ command.name ++ " failed"⟩

/-- The answer of `meet` and `join`. -/
def resultAnswer (c : Context) : Answer :=
  ⟨.obj [("result", c.document)], c.written, true⟩

/-- The answer of `check`: each feature once, in the order given. -/
def checkAnswer (c : Context) (features : List String) : Answer :=
  let status := (distinct features).map fun x => (x, c.enables x)
  { document := .obj [("context", c.document),
      ("features", .obj (status.map fun (x, enabled) => (x, .bool enabled)))]
    text := "\n".intercalate (status.map fun (x, enabled) =>
      x ++ ": " ++ if enabled then "enabled" else "disabled")
    verdict := status.all Prod.snd }

/-- The answer of `laws`. -/
def lawsAnswer (failures : List (LawFailure Context)) : Answer :=
  let lines := failures.map fun f => (f.violation Context.written).line Context.written
  { document := .obj [("violations", .arr (lines.map .str))]
    text := "\n".intercalate
      (lines ++ ["--- " ++ toString failures.length ++ " violation(s) ---"])
    verdict := failures.isEmpty }

/-- The contexts that `laws` checks besides those that it reads. -/
def standardSamples : List Context := [.universal, .empty]

/-- End with the fault of a text that is no written context. -/
def reject {α : Type} (text : String) (r : Rejection) : Activity α := do
  Activity.record (rejected text r)
  Activity.fail (r.toError text)

def readText (text : String) : Activity Context :=
  match Context.read text with
  | .error r => reject text r
  | .ok c => pure c

def readTexts (texts : List String) : Activity (List Context) :=
  match Context.readEach texts with
  | .error (text, r) => reject text r
  | .ok cs => do
    Activity.record (parsed cs.length)
    return cs

def checkLaws (l : MeetSemilattice Context) (samples : List Context) (config : LawCheckConfig) :
    Activity (List (LawFailure Context)) :=
  match l.verifyLaws samples config with
  | .error problems => Activity.fail (.lawCheck problems "")
  | .ok failures => do
    let checked := MeetSemilattice.checkedSamples config samples
    Activity.record (verified checked.length failures.length)
    return failures

/-- Broken laws are worth a warning. -/
def warn (failures : List (LawFailure Context)) : Activity Unit := do
  unless failures.isEmpty do
    Activity.record (violationsFound failures.length)

/-- Write an answer out and end with it. -/
def answer (a : Answer) : Outcome := do
  Activity.write a
  return a

/-- Carry out a command up to its answer or error. -/
def attempt (l : MeetSemilattice Context) : Command → Outcome
  | meet texts => do
    let cs ← readTexts texts
    answer (resultAnswer (l.meetAll cs))
  | join texts => do
    let cs ← readTexts texts
    answer (resultAnswer (Context.joinAll cs))
  | check text features => do
    let c ← readText text
    answer (checkAnswer c features)
  | laws texts config => do
    let cs ← readTexts texts
    let failures ← checkLaws l (standardSamples ++ cs) config
    warn failures
    answer (lawsAnswer failures)

/-- Carry out a command with the given lattice of contexts. An error is logged once more with the
name of the command. -/
def run (l : MeetSemilattice Context) (command : Command) : Outcome :=
  let outcome := command.attempt l
  match outcome.result with
  | .error _ => { outcome with events := outcome.events ++ [.logged command.failed] }
  | .ok _ => outcome

end Command

/-- An answer as it is written out. -/
def Answer.output (a : Answer) : OutputFormat → String
  | .text => a.text ++ "\n"
  | .json => a.document.text ++ "\n"

namespace Outcome

/-- The records that were logged. -/
def log (o : Outcome) : List LogRecord := o.events.filterMap Event.record?

/-- The answers that were written out. -/
def written (o : Outcome) : List Answer := o.events.filterMap Event.answer?

/-- Success, a negative verdict, or an error. -/
def exitCode (o : Outcome) : Nat :=
  match o.result with
  | .ok a => if a.verdict then 0 else 1
  | .error _ => 2

/-- What is written to standard output. -/
def output (o : Outcome) (format : OutputFormat) : String :=
  String.join (o.written.map fun a => a.output format)

/-- The line that reports an error. -/
def errorLine (o : Outcome) : String :=
  match o.result with
  | .ok _ => ""
  | .error e => "featureflow: error: " ++ e.report ++ "\n"

/-- What is written to standard error: the records that the logger shows, then the error. -/
def errors (o : Outcome) (logger : Logger) (stamp : String) : String :=
  String.join (o.log.map (logger.line stamp)) ++ o.errorLine

end Outcome

end FeatureLattice
