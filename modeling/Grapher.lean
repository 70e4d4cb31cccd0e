import Grapher.Proofs.Native.Confinement
import Grapher.Proofs.Formula.Comparison
import Grapher.Proofs.Formula.Resolution
import Grapher.Proofs.Session.Capture
import Grapher.Proofs.Formula.Region
import Grapher.Proofs.Formula.Termination
import Grapher.Proofs.Markup.Variables
import Grapher.Proofs.Formula.Samples
import Grapher.Proofs.Markup.Conservation
import Grapher.Proofs.Markup.Order
import Grapher.Proofs.Formula.LeftToRight
import Grapher.Proofs.Markup.Spacing
import Grapher.Proofs.Markup.Bars
import Grapher.Proofs.Formula.Truth
import Grapher.Proofs.Formula.Calls
import Grapher.Proofs.Formula.Undefined
import Grapher.Proofs.Formula.IntegrationVariable
import Grapher.Proofs.Calculus.Difference
import Grapher.Proofs.Calculus.Simpson
import Grapher.Proofs.Formula.Mirror
import Grapher.Proofs.Formula.Grid
import Grapher.Proofs.Evaluation.Conjunction
import Grapher.Proofs.Evaluation.IntervalCount
import Grapher.Proofs.Tree.Datum
import Grapher.Proofs.Program.Spelling
import Grapher.Proofs.Markup.Runs
