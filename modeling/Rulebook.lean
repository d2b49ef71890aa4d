import Rulebook.Engine
import Rulebook.RuleDirectory
import Rulebook.RuleShelf
import Rulebook.Settings.Load
import Rulebook.Proofs.KeptResults
import Rulebook.Proofs.BuiltIn
import Rulebook.Proofs.PathConformance
import Rulebook.Proofs.Conformance
import Rulebook.Proofs.Agreement
import Rulebook.Proofs.Modes
import Rulebook.Proofs.Attempts
import Rulebook.Proofs.Magnitudes
import Rulebook.Proofs.ShortestDecimals
import Rulebook.Proofs.DecimalValue
import Rulebook.Proofs.NumberText
import Rulebook.Proofs.JsonText
import Rulebook.Proofs.Caching
import Rulebook.Proofs.ValidityWindow
import Rulebook.Proofs.Counterparts
import Rulebook.Proofs.Identifiers
import Rulebook.Proofs.Ranking
import Rulebook.Proofs.Acceptance
import Rulebook.Proofs.LenientLoading
import Rulebook.Proofs.Precision
import Rulebook.Proofs.Weakening
import Rulebook.Proofs.Tuples
import Rulebook.Proofs.BoundNames
import Rulebook.Proofs.RulesetHistory
import Rulebook.Proofs.Odometer
import Rulebook.Proofs.Generation
import Rulebook.Proofs.FactOrder
import Rulebook.Proofs.Reachable
import Rulebook.Proofs.IdleRules
import Rulebook.Proofs.Batches
import Rulebook.Proofs.FiringTrace
import Rulebook.Proofs.LiveResults
import Rulebook.Proofs.NearestRank
import Rulebook.Proofs.NumberReading
import Rulebook.Proofs.ExactReading
import Rulebook.Proofs.JsonReading
import Rulebook.Proofs.RuleText
import Rulebook.Proofs.Frontier
import Rulebook.Proofs.Relations
import Rulebook.Proofs.IntegerOrder
import Rulebook.Proofs.StructuralEquality
import Rulebook.Proofs.PredicatePosition
import Rulebook.Proofs.WholeMatch
import Rulebook.Proofs.StatedPriority
import Rulebook.Proofs.Enumeration
import Rulebook.Proofs.ArgumentKeys
import Rulebook.Proofs.OperandAccounts
import Rulebook.Proofs.LogicalLaws
import Rulebook.Proofs.PathText
import Rulebook.Proofs.Blame
import Rulebook.Proofs.StrictLoading
import Rulebook.Proofs.Placeholders
import Rulebook.Proofs.WrittenReferences
import Rulebook.Proofs.Containment
import Rulebook.Proofs.Confinement
