import Reckon.Archive.Store
import Reckon.Main
import Reckon.Proofs.Calculator.Acceptance
import Reckon.Proofs.Calculator.Arrangement
import Reckon.Proofs.Calculator.Failures
import Reckon.Proofs.Calculator.Status
import Reckon.Proofs.Calculator.Variables
import Reckon.Proofs.Decimal.Power
import Reckon.Proofs.Decimal.Spelling
import Reckon.Proofs.Notation.ComplexLiteral
import Reckon.Proofs.Notation.Grammar
import Reckon.Proofs.Notation.Layout
import Reckon.Proofs.Notation.Respelling
import Reckon.Proofs.Notation.RoundTrip
import Reckon.Proofs.Number.Commutation
import Reckon.Proofs.Number.Division
import Reckon.Proofs.Number.Gaussian
import Reckon.Proofs.Number.IntegerPower
import Reckon.Proofs.Number.Logarithm
import Reckon.Proofs.Number.Native
import Reckon.Proofs.Number.SquareRoot
import Reckon.Proofs.Number.ZeroDivisor
import Reckon.Proofs.Operand.Rounding
import Reckon.Proofs.Random.Decimal
import Reckon.Proofs.Random.Integer
import Reckon.Proofs.Random.Real
import Reckon.Proofs.Real.Cutting
import Reckon.Proofs.Real.Normalization
import Reckon.Proofs.Real.Projection
import Reckon.Proofs.Roots.Accuracy
import Reckon.Real.Roots
