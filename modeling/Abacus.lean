import Abacus.Operation.Describe
import Abacus.Operation.Rule
import Abacus.Library.Extras
import Abacus.Variables.Naming
import Abacus.Main
import Abacus.Proofs.Expression.Precedence
import Abacus.Proofs.Evaluation.Agreement
import Abacus.Proofs.Evaluation.Isolation
import Abacus.Proofs.Evaluation.Calls
import Abacus.Proofs.Evaluation.Nesting
import Abacus.Proofs.Token.RoundTrip
import Abacus.Proofs.Token.Concatenation
import Abacus.Proofs.Calculator.Transparency
import Abacus.Proofs.Calculator.Batch
import Abacus.Proofs.Registry.Consistency
import Abacus.Proofs.Registry.Namespaces
import Abacus.Proofs.Operation.Quiet
import Abacus.Proofs.Token.Known
import Abacus.Proofs.Evaluation.Failure
import Abacus.Proofs.Evaluation.Recognition
import Abacus.Proofs.Registry.Order
import Abacus.Proofs.Evaluation.Extension
import Abacus.Proofs.Operation.Thorough
import Abacus.Proofs.Evaluation.Settlement
import Abacus.Proofs.Text.ByteOrder
import Abacus.Proofs.Calculator.StoredNames
import Abacus.Proofs.Calculator.Recency
import Abacus.Proofs.Evaluation.Completion
import Abacus.Proofs.Evaluation.Enclosure
import Abacus.Proofs.Token.Cursor
import Abacus.Proofs.Token.Coverage
import Abacus.Proofs.Evaluation.Target
import Abacus.Proofs.Operation.Nominal
import Abacus.Proofs.Evaluation.Assignment
import Abacus.Proofs.Number.Residue
import Abacus.Proofs.Number.Rounding
import Abacus.Proofs.Number.Packing
import Abacus.Proofs.Number.Nearest
import Abacus.Proofs.Number.Decimal
import Abacus.Proofs.Number.Value
import Abacus.Proofs.Token.Literal
import Abacus.Proofs.Operation.StackEffect
import Abacus.Proofs.Registry.Registration
import Abacus.Proofs.Console.Insertion
import Abacus.Proofs.Evaluation.Bases
import Abacus.Proofs.Evaluation.Slots
