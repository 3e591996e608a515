import NameResolution.Host
import NameResolution.Mangled.Writer
import NameResolution.Name.Dotted
import NameResolution.Name.JsonText
import NameResolution.Name.Pattern
import NameResolution.Proofs.Handles
import NameResolution.Proofs.Entries
import NameResolution.Proofs.Lifetimes
import NameResolution.Proofs.HandleSets
import NameResolution.Proofs.Membership
import NameResolution.Proofs.Scopes
import NameResolution.Proofs.Trails
import NameResolution.Proofs.Forest.Chains
import NameResolution.Proofs.Forest.Descent
import NameResolution.Proofs.Forest.Relinking
import NameResolution.Proofs.Forest.Flattening
import NameResolution.Proofs.Forest.Records
import NameResolution.Proofs.Forest.Queries
import NameResolution.Proofs.Forest.Regrafting
import NameResolution.Proofs.Forest.Traversal
import NameResolution.Proofs.Forest.Agreement
import NameResolution.Proofs.Tables.Changes
import NameResolution.Proofs.Tables.Ownership
import NameResolution.Proofs.Tables.Paths
import NameResolution.Proofs.Tables.Matching
import NameResolution.Proofs.Tables.Questions
import NameResolution.Proofs.Session.Runs
import NameResolution.Proofs.Session.Adding
import NameResolution.Proofs.Session.Course
import NameResolution.Proofs.Session.Course.Declaring
import NameResolution.Proofs.Session.Course.Loading
import NameResolution.Proofs.Session.Course.Operations
import NameResolution.Proofs.Session.History
import NameResolution.Proofs.Session.Failures
import NameResolution.Proofs.Session.Ownership
import NameResolution.Proofs.Session.Progress
import NameResolution.Proofs.Session.Loads
import NameResolution.Proofs.Mangled.Acceptance
import NameResolution.Proofs.Mangled.Grammar
import NameResolution.Proofs.Mangled.Derivations
import NameResolution.Proofs.Mangled.Nesting
import NameResolution.Proofs.Mangled.Reading
import NameResolution.Proofs.Mangled.Recognizing
import NameResolution.Proofs.Mangled.Shapes
import NameResolution.Proofs.Mangled.Viability
import NameResolution.Proofs.Session.Mangling
import NameResolution.Proofs.Session.Signatures
import NameResolution.Proofs.Session.Resolution
import NameResolution.Proofs.Session.Calls
import NameResolution.Proofs.Session.Laziness
import NameResolution.Proofs.Session.Orphans
import NameResolution.Proofs.Session.Moves
import NameResolution.Proofs.Session.Moves.Declaring
import NameResolution.Proofs.Session.Moves.Operations
import NameResolution.Proofs.Session.Correspondence
import NameResolution.Proofs.Session.Faults
import NameResolution.Proofs.Session.Observers
import NameResolution.Proofs.Session.Instances
import NameResolution.Proofs.Session.Preemption
import NameResolution.Proofs.Pattern.Rendering
import NameResolution.Proofs.Pattern.Counting
import NameResolution.Proofs.Tables.Agreement
import NameResolution.Proofs.Tables.Ascents
import NameResolution.Proofs.Tables.Lineage
import NameResolution.Proofs.Session.Atomicity
import NameResolution.Proofs.Session.Templates
import NameResolution.Proofs.Session.Releasing
import NameResolution.Proofs.Session.Members
import NameResolution.Proofs.Session.Batches
import NameResolution.Proofs.Session.Deliveries
import NameResolution.Proofs.Session.Patterns
import NameResolution.Proofs.Session.Blindness
import NameResolution.Proofs.Session.PatternNames
import NameResolution.Proofs.Session.Closure
import NameResolution.Proofs.Session.Still
import NameResolution.Proofs.Session.Enclosing
