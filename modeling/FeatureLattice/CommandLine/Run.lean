import FeatureLattice.CommandLine.Request

/-!
# Running the program

One run of the program reads its command line, carries out the command and yields what is written
to both streams, with the exit code. The logger outlives a run: what one run asks for is still in
force in the next one.
-/
namespace FeatureLattice.CommandLine

/-- What one run of the program leaves. -/
structure Run where
  exitCode : Nat
  output : String
  errors : String
  logger : Logger

/-- Run the program on the words of a command line, with the given lattice of contexts, time stamp
and logger. -/
def run (l : MeetSemilattice Context) (stamp : String) (logger : Logger) (words : List String) :
    Run :=
  match readRequest words with
  | .error (.shown text) => ⟨0, text, "", logger⟩
  | .error (.refused text) => ⟨2, "", text, logger⟩
  | .ok request =>
    let logger := logger.configure request.verbosity
    let outcome := request.command.run l
    ⟨outcome.exitCode, outcome.output request.format, outcome.errors logger stamp, logger⟩

end FeatureLattice.CommandLine
