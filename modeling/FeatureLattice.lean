import FeatureLattice.Catalogue
import FeatureLattice.Command
import FeatureLattice.CommandLine.Arguments
import FeatureLattice.CommandLine.Request
import FeatureLattice.CommandLine.Run
import FeatureLattice.CommandLine.Usage
import FeatureLattice.Context
import FeatureLattice.Context.Construction
import FeatureLattice.Context.Name
import FeatureLattice.Context.Printer
import FeatureLattice.Context.Reader
import FeatureLattice.Distinct
import FeatureLattice.Fault
import FeatureLattice.FeatureError
import FeatureLattice.Keyed
import FeatureLattice.Lattice.Contexts
import FeatureLattice.Lattice.Laws
import FeatureLattice.Lattice.Named
import FeatureLattice.Lattice.OnValues
import FeatureLattice.Lattice.Semilattice
import FeatureLattice.Lattice.Violation
import FeatureLattice.Log
import FeatureLattice.Main
import FeatureLattice.NameSet
import FeatureLattice.Number
import FeatureLattice.Number.Binary64
import FeatureLattice.Number.Extended
import FeatureLattice.Proofs.AllPaths
import FeatureLattice.Proofs.CheckedFeatures
import FeatureLattice.Proofs.CommandActions
import FeatureLattice.Proofs.CommandFaults
import FeatureLattice.Proofs.CommandResults
import FeatureLattice.Proofs.ContextForms
import FeatureLattice.Proofs.ContextGrammar
import FeatureLattice.Proofs.ContextLattice
import FeatureLattice.Proofs.ContextRecord
import FeatureLattice.Proofs.ContextSession
import FeatureLattice.Proofs.CopiedNotes
import FeatureLattice.Proofs.Descent
import FeatureLattice.Proofs.DueNames
import FeatureLattice.Proofs.FlowGraph
import FeatureLattice.Proofs.HashAgreement
import FeatureLattice.Proofs.LawCertificate
import FeatureLattice.Proofs.LawReport
import FeatureLattice.Proofs.LawfulLattices
import FeatureLattice.Proofs.Meaning
import FeatureLattice.Proofs.MeetOfMany
import FeatureLattice.Proofs.NameGrammar
import FeatureLattice.Proofs.NestedMeet
import FeatureLattice.Proofs.NumberOrder
import FeatureLattice.Proofs.PartialRuns
import FeatureLattice.Proofs.QuotedText
import FeatureLattice.Proofs.RejectionHint
import FeatureLattice.Proofs.RejectionPlace
import FeatureLattice.Proofs.RepeatedSamples
import FeatureLattice.Proofs.SetAlgebra
import FeatureLattice.Proofs.SetEquality
import FeatureLattice.Proofs.StepBound
import FeatureLattice.Proofs.TextPlaces
import FeatureLattice.Proofs.TextSets
import FeatureLattice.Proofs.UnknownSuccessors
import FeatureLattice.Proofs.ValueEquality
import FeatureLattice.Proofs.WorkQueue
import FeatureLattice.Proofs.WrittenForm
import FeatureLattice.Proofs.WrittenNames
import FeatureLattice.Solver
import FeatureLattice.Text.CharacterClass
import FeatureLattice.Text.Json
import FeatureLattice.Text.Quoted
import FeatureLattice.Text.WholeNumber
import FeatureLattice.Value
import FeatureLattice.Value.Literal
import FeatureLattice.Value.Notebook
import FeatureLattice.Value.Operators
import FeatureLattice.Value.Order
import FeatureLattice.ValueSet
import FeatureLattice.Proofs.LegalFeatures
import FeatureLattice.Proofs.CanonicalListing
