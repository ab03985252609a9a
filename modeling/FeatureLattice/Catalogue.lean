import FeatureLattice.Fault

/-!
# Catalogue of public names

The public names are grouped in modules. Publishing names of a module appends them to the list of
published names, one after the other up to the first that the module does not have, and last the
name of the module unless it is on the list.
-/
namespace FeatureLattice.Catalogue

def version : String := "0.1.0"

/-- The modules with the names that are published at the start. -/
def published : List (String × List String) :=
  [("errors", ["FeatureFlowError", "NotationError", "LawCheckConfigError", "FeatureNameError"]),
   ("value_set", ["ValueSet"]),
   ("lattice",
    ["MeetSemilattice", "DeepCopyValue", "LawCheckConfig", "LawViolation", "verify_laws"]),
   ("context", ["ContextKind", "FeatureContext", "FeatureContextLattice"]),
   ("notation", ["parse_context", "format_context"])]

/-- Names that modules have without publishing them at the start. -/
def unpublished : List (String × List String) :=
  [("value_set", ["T"]),
   ("lattice", ["L", "T", "LawCheckConfigError"]),
   ("context", ["FeatureNameError", "MeetSemilattice", "ValueSet"]),
   ("notation", ["CONTEXT_GRAMMAR", "FeatureContext", "NotationError", "format_name"]),
   ("main",
    ["EXIT_OK", "EXIT_FAILURE", "EXIT_USAGE", "FeatureContext", "FeatureContextLattice",
     "FeatureFlowError", "LawCheckConfig", "build_parser", "cmd_check", "cmd_join", "cmd_laws",
     "cmd_meet", "format_context", "main", "parse_context", "verify_laws"])]

/-- The names of a module, if there is such a module. -/
def names? (module : String) : Option (List String) :=
  match published.lookup module, unpublished.lookup module with
  | none, none => none
  | some ns, none => some ns
  | none, some ms => some ms
  | some ns, some ms => some (ns ++ ms)

/-- Publish names of a module: the names that are appended, and why it stopped if it did. -/
def publish (all : List String) (module : String) (names : List String) :
    List String × Option Fault :=
  match names? module with
  | none => ([], some (.missingModule module))
  | some has =>
    let added := names.takeWhile (· ∈ has)
    match names.drop added.length with
    | name :: _ => (added, some (.missingExport module name))
    | [] => (if module ∈ all ++ added then added else added ++ [module], none)

/-- The list of published names at the start. -/
def initial : List String :=
  published.foldl (fun all (module, names) => all ++ (publish all module names).1) []

end FeatureLattice.Catalogue
