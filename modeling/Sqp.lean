import Sqp.Formula
import Sqp.Scalar.Cell
import Sqp.Scale.Lists
import Sqp.Solver.Run
import Sqp.Proofs.Curvature.Secant
import Sqp.Proofs.Journal.Growth
import Sqp.Proofs.LineSearch.Halving
import Sqp.Proofs.LineSearch.Termination
import Sqp.Proofs.LineSearch.Undefined
import Sqp.Proofs.Linear.BestFit
import Sqp.Proofs.Mirror
import Sqp.Proofs.NewtonStep.Damping
import Sqp.Proofs.NewtonStep.Interior
import Sqp.Proofs.NewtonStep.Minimiser
import Sqp.Proofs.Problem.Layout
import Sqp.Proofs.Scalar.Double
import Sqp.Proofs.Scalar.Dyadic
import Sqp.Proofs.Scale.Invariance
import Sqp.Proofs.Scale.RoundTrip
import Sqp.Proofs.Solver.Confinement
import Sqp.Proofs.Solver.Consistency
import Sqp.Proofs.Solver.Curvature
import Sqp.Proofs.Solver.Divisors
import Sqp.Proofs.Solver.Evaluations
import Sqp.Proofs.Solver.Failures
import Sqp.Proofs.Solver.Feasibility
import Sqp.Proofs.Solver.Ledger
import Sqp.Proofs.Solver.Monotone
import Sqp.Proofs.Solver.Penalty
import Sqp.Proofs.Solver.Returns
import Sqp.Proofs.Solver.Trend
import Sqp.Proofs.Subproblem.Choice
import Sqp.Proofs.Subproblem.Curvature
import Sqp.Proofs.Subproblem.Decrease
import Sqp.Proofs.Subproblem.Gradient
import Sqp.Proofs.Subproblem.Projection
import Sqp.Proofs.Subproblem.Records
import Sqp.Proofs.Subproblem.Redundant
import Sqp.Proofs.Subproblem.Repair
import Sqp.Proofs.Subproblem.Returns
import Sqp.Proofs.Subproblem.Settle
import Sqp.Proofs.Subproblem.Units
import Sqp.Proofs.Units
