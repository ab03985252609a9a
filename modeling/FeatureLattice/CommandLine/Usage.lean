/-!
# Usage and help texts

What the program prints about its own command line: a usage for each command and one for the
program, and the help that goes on from it.
-/
namespace FeatureLattice.CommandLine

def program : String := "featureflow"

def usage : String :=
  "usage: featureflow [-h] [--version] [-v] [--format \x7btext,json\x7d] <command> ...\n"

def help : String :=
  usage ++
  "\nEvaluate feature-context lattice operations.\n" ++
  "\npositional arguments:\n" ++
  "  <command>\n" ++
  "    meet                intersection of contexts\n" ++
  "    join                union of contexts\n" ++
  "    check               query features in a context\n" ++
  "    laws                verify the semilattice laws\n" ++
  "\noptions:\n" ++
  "  -h, --help            show this help message and exit\n" ++
  "  --version             show program's version number and exit\n" ++
  "  -v, --verbose         increase log verbosity (repeatable)\n" ++
  "  --format \x7btext,json\x7d  output format (default: text)\n"

def meetUsage : String := "usage: featureflow meet [-h] [CTX ...]\n"

def joinUsage : String := "usage: featureflow join [-h] [CTX ...]\n"

def checkUsage : String := "usage: featureflow check [-h] CTX FEATURE [FEATURE ...]\n"

def lawsUsage : String :=
  "usage: featureflow laws [-h] [--max-samples MAX_SAMPLES] [--no-associativity]\n" ++
  "                        [--no-monotonicity]\n" ++
  "                        [CTX ...]\n"

/-- The help of a command: its usage, the labels of its slots, and its only switch. -/
def commandHelp (usage : String) (labels : List String) : String :=
  usage ++
  "\npositional arguments:\n" ++
  String.join (labels.map fun label => "  " ++ label ++ "\n") ++
  "\noptions:\n" ++
  "  -h, --help  show this help message and exit\n"

def lawsHelp : String :=
  lawsUsage ++
  "\npositional arguments:\n" ++
  "  CTX\n" ++
  "\noptions:\n" ++
  "  -h, --help            show this help message and exit\n" ++
  "  --max-samples MAX_SAMPLES\n" ++
  "  --no-associativity\n" ++
  "  --no-monotonicity\n"

end FeatureLattice.CommandLine
