import PapyrusAnalysis.Fault
import PapyrusAnalysis.Text.Range
import PapyrusAnalysis.Text.Replace
import PapyrusAnalysis.Text.Lowercase
import PapyrusAnalysis.Registry
import PapyrusAnalysis.FlagSet
import PapyrusAnalysis.QualifiedName
import PapyrusAnalysis.Tree.Walk
import PapyrusAnalysis.Tree.Builder
import PapyrusAnalysis.Diagnostic.Basic
import PapyrusAnalysis.Json.Reader
import PapyrusAnalysis.Json.Number
import PapyrusAnalysis.Project
import PapyrusAnalysis.Binding
import PapyrusAnalysis.Lookup
import PapyrusAnalysis.Session.Resolution
import PapyrusAnalysis.Session.Inference
import PapyrusAnalysis.Call
import PapyrusAnalysis.Validation
import PapyrusAnalysis.Program
import PapyrusAnalysis.Proofs.Coupling
import PapyrusAnalysis.Proofs.Tree.Shape
import PapyrusAnalysis.Proofs.Symbol.Table
import PapyrusAnalysis.Proofs.Binding.Invariant
import PapyrusAnalysis.Proofs.Binding.Declarations
import PapyrusAnalysis.Proofs.Binding.Furnished
import PapyrusAnalysis.Proofs.Binding.Steps
import PapyrusAnalysis.Proofs.Binding.Answers
import PapyrusAnalysis.Proofs.Codebase
import PapyrusAnalysis.Proofs.Session.ArrayMembers
import PapyrusAnalysis.Proofs.Session.Growth
import PapyrusAnalysis.Proofs.Session.Soundness
import PapyrusAnalysis.Proofs.Session.Correspondence
import PapyrusAnalysis.Proofs.Text.Case
import PapyrusAnalysis.Proofs.Text.Caseless
import PapyrusAnalysis.Proofs.Session.Resolution
import PapyrusAnalysis.Proofs.Session.Members
import PapyrusAnalysis.Proofs.Session.Scope
import PapyrusAnalysis.Proofs.Session.Inference
import PapyrusAnalysis.Proofs.Validation
import PapyrusAnalysis.Proofs.Session.Termination
import PapyrusAnalysis.Proofs.Program
import PapyrusAnalysis.Proofs.Session.Canonical
import PapyrusAnalysis.Proofs.Session.Independence
import PapyrusAnalysis.Proofs.Steady
import PapyrusAnalysis.Proofs.Tree.Descent
import PapyrusAnalysis.Proofs.Tree.Parents
import PapyrusAnalysis.Proofs.Tree.Traversal
import PapyrusAnalysis.Proofs.Builder.Calls
import PapyrusAnalysis.Proofs.Builder.Placement
import PapyrusAnalysis.Proofs.Session.Steps
import PapyrusAnalysis.Proofs.Session.Asking
import PapyrusAnalysis.Proofs.Validation.Conduct
import PapyrusAnalysis.Proofs.Validation.Coverage
import PapyrusAnalysis.Proofs.Validation.Operators
import PapyrusAnalysis.Proofs.Validation.Arithmetic
import PapyrusAnalysis.Proofs.Text.Order
import PapyrusAnalysis.Proofs.Diagnostic.Sorting
import PapyrusAnalysis.Proofs.Diagnostic.Filling
import PapyrusAnalysis.Proofs.Program.Reports
import PapyrusAnalysis.Proofs.Program.Files
import PapyrusAnalysis.Proofs.Session.Questions
import PapyrusAnalysis.Proofs.Session.Naming
import PapyrusAnalysis.Proofs.Binding.Places
import PapyrusAnalysis.Proofs.Session.Lasting
import PapyrusAnalysis.Proofs.Session.Pending
import PapyrusAnalysis.Proofs.Session.Referents
import PapyrusAnalysis.Proofs.Binding.Distinct
import PapyrusAnalysis.Proofs.Binding.OneToOne
import PapyrusAnalysis.Proofs.Program.Index
import PapyrusAnalysis.Proofs.Binding.Surroundings
import PapyrusAnalysis.Proofs.Session.Inheritance
import PapyrusAnalysis.Proofs.Session.Visibility
import PapyrusAnalysis.Proofs.Session.Membership
import PapyrusAnalysis.Proofs.Session.Access
import PapyrusAnalysis.Proofs.Json.Reading
import PapyrusAnalysis.Proofs.Call
import PapyrusAnalysis.Proofs.Project
import PapyrusAnalysis.Proofs.Validation.Calls
import PapyrusAnalysis.Proofs.Text.Folding
import PapyrusAnalysis.Proofs.Binding.Account
import PapyrusAnalysis.Proofs.Session.Redeclaration
import PapyrusAnalysis.Proofs.Session.Hierarchy
import PapyrusAnalysis.Proofs.Session.Assignability
import PapyrusAnalysis.Proofs.Session.Enumeration
import PapyrusAnalysis.Proofs.Session.Structs
import PapyrusAnalysis.Proofs.Session.Lexical
import PapyrusAnalysis.Proofs.Session.FullNames
import PapyrusAnalysis.Proofs.Session.Arrays
import PapyrusAnalysis.Proofs.Binding.Tables
import PapyrusAnalysis.Proofs.Session.Coherence
import PapyrusAnalysis.Proofs.Binding.Grammar
import PapyrusAnalysis.Proofs.Binding.Complete
import PapyrusAnalysis.Proofs.Builder.Limits
import PapyrusAnalysis.Proofs.Binding.Titles
import PapyrusAnalysis.Proofs.Session.Exposure
import PapyrusAnalysis.Proofs.Session.Precedence
import PapyrusAnalysis.Proofs.Validation.DeclaredNames
