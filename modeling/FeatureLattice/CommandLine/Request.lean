import FeatureLattice.Catalogue
import FeatureLattice.Command
import FeatureLattice.CommandLine.Arguments
import FeatureLattice.CommandLine.Usage
import FeatureLattice.Text.WholeNumber

/-!
# Requests on the command line

The command line of the program: its own switches, then a command with switches and slots of its
own. A request says how much to log, how to write the answer, and what to do.
-/
namespace FeatureLattice.CommandLine

/-- What a command line asks for. -/
structure Request where
  verbosity : Nat
  format : OutputFormat
  command : Command

/-- What the words after a command amount to. -/
structure CommandWords where
  contexts : List String := []
  features : List String := []
  config : LawCheckConfig := {}

/-- What the words before and after the name of a command amount to. -/
structure RequestWords where
  verbosity : Nat := 0
  format : OutputFormat := .text
  command : Option (Command × List String) := none

def helpSwitch {σ : Type} (text : String) : Switch σ := ⟨["-h", "--help"], .display text⟩

def contextsSlot (arity : Arity) : Slot CommandWords :=
  ⟨"CTX", arity, fun words => .ok fun w => { w with contexts := words }⟩

def featuresSlot : Slot CommandWords :=
  ⟨"FEATURE", .some, fun words => .ok fun w => { w with features := words }⟩

def invalidChoice (word : String) (choices : List String) : String :=
  "invalid choice: " ++ Text.quote word ++ " (choose from " ++
    ", ".intercalate (choices.map Text.quote) ++ ")"

def maxSamples (word : String) : Except String (CommandWords → CommandWords) :=
  match Text.wholeNumber? word with
  | some n => .ok fun w => { w with config := { w.config with maxSamples := n } }
  | none => .error ("invalid int value: " ++ Text.quote word)

def meetGrammar : Grammar CommandWords where
  program := program ++ " meet"
  usage := meetUsage
  switches := [helpSwitch (commandHelp meetUsage ["CTX"])]
  slots := [contextsSlot .any]

def joinGrammar : Grammar CommandWords where
  program := program ++ " join"
  usage := joinUsage
  switches := [helpSwitch (commandHelp joinUsage ["CTX"])]
  slots := [contextsSlot .any]

def checkGrammar : Grammar CommandWords where
  program := program ++ " check"
  usage := checkUsage
  switches := [helpSwitch (commandHelp checkUsage ["CTX", "FEATURE"])]
  slots := [contextsSlot .one, featuresSlot]

def lawsGrammar : Grammar CommandWords where
  program := program ++ " laws"
  usage := lawsUsage
  switches :=
    [helpSwitch lawsHelp,
     ⟨["--max-samples"], .valued maxSamples⟩,
     ⟨["--no-associativity"],
      .flag fun w => { w with config := { w.config with checkAssociativity := false } }⟩,
     ⟨["--no-monotonicity"],
      .flag fun w => { w with config := { w.config with checkMonotonicity := false } }⟩]
  slots := [contextsSlot .any]

/-- The commands: how each reads its words, and what it makes of them. -/
def commands : List (String × Grammar CommandWords × (CommandWords → Command)) :=
  [("meet", meetGrammar, fun w => .meet w.contexts),
   ("join", joinGrammar, fun w => .join w.contexts),
   ("check", checkGrammar, fun w => .check (w.contexts.headD "") w.features),
   ("laws", lawsGrammar, fun w => .laws w.contexts w.config)]

/-- The message for a word that should name a command. -/
def unknownCommand (word : String) : Stop :=
  .refused (usage ++ program ++ ": error: argument <command>: " ++
    invalidChoice word (commands.map Prod.fst) ++ "\n")

/-- Read the name of a command and all words after it. -/
def readCommand : List String → Except Stop (RequestWords → RequestWords)
  | [] => .error (unknownCommand "")
  | word :: words =>
    match commands.lookup word with
    | none => .error (unknownCommand word)
    | some (grammar, build) =>
      match grammar.read {} words with
      | .error stop => .error stop
      | .ok (w, leftOver) => .ok fun r => { r with command := some (build w, leftOver) }

/-- Choose a format. A bare separator as its value leaves the format without one, and the answer
is written as text. -/
def chooseFormat (word : String) : Except String (RequestWords → RequestWords) :=
  if word = "json" then .ok fun r => { r with format := .json }
  else if word = "text" ∨ word = "--" then .ok fun r => { r with format := .text }
  else .error (invalidChoice word ["text", "json"])

def requestGrammar : Grammar RequestWords where
  program := program
  usage := usage
  switches :=
    [helpSwitch help,
     ⟨["--version"], .display (program ++ " " ++ Catalogue.version ++ "\n")⟩,
     ⟨["-v", "--verbose"], .flag fun r => { r with verbosity := r.verbosity + 1 }⟩,
     ⟨["--format"], .valued chooseFormat⟩]
  slots := [⟨"<command>", .command, readCommand⟩]

/-- Read a whole command line. Words that fit nowhere are an error, found last. -/
def readRequest (words : List String) : Except Stop Request :=
  match requestGrammar.read {} words with
  | .error stop => .error stop
  | .ok (r, before) =>
    match r.command with
    | none => .error (requestGrammar.refuse "the following arguments are required: <command>")
    | some (command, after) =>
      match before ++ after with
      | [] => .ok ⟨r.verbosity, r.format, command⟩
      | leftOver =>
        .error (requestGrammar.refuse ("unrecognized arguments: " ++ " ".intercalate leftOver))

end FeatureLattice.CommandLine
