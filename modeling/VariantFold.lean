import VariantFold.CommandLine.Run
import VariantFold.Main
import VariantFold.Proofs.Declarations
import VariantFold.Proofs.Safety
import VariantFold.Proofs.SecondPass
import VariantFold.Proofs.Anatomy
import VariantFold.Proofs.CallRules
import VariantFold.Proofs.IfRules
import VariantFold.Proofs.Reports
import VariantFold.Proofs.Stability
import VariantFold.Proofs.Survivors
import VariantFold.Proofs.Unreferenced
import VariantFold.Proofs.Evaluation
import VariantFold.Proofs.Histories
import VariantFold.Proofs.Groups
import VariantFold.Proofs.Surroundings
import VariantFold.Proofs.StringTests
import VariantFold.Proofs.JsonTokens
import VariantFold.Proofs.JsonNodes
import VariantFold.Proofs.RoundTrip
import VariantFold.Proofs.InPlace
import VariantFold.Proofs.Operands
import VariantFold.Proofs.TakenBranches
import VariantFold.Proofs.EqualityChains
import VariantFold.Proofs.Doubles
import VariantFold.Proofs.Literals
import VariantFold.Proofs.Selections
import VariantFold.Proofs.Rounding
import VariantFold.Proofs.StrictComparisons
import VariantFold.Proofs.Decimals
import VariantFold.Proofs.FloatText
import VariantFold.Proofs.Reachability
import VariantFold.Proofs.PushedCalls
import VariantFold.Proofs.ScriptNumbers
import VariantFold.Proofs.Layers
import VariantFold.Proofs.Enclosures
import VariantFold.Proofs.Assignments
import VariantFold.Proofs.FlatTables
