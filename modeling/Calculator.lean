import Calculator.Crosscheck
import Calculator.Double.Exact
import Calculator.Double.Lemmas
import Calculator.Expr.Same
import Calculator.Main
import Calculator.Options
import Calculator.Proofs.Chains
import Calculator.Proofs.Closest
import Calculator.Proofs.Configurations
import Calculator.Proofs.Crosschecks
import Calculator.Proofs.Decimals
import Calculator.Proofs.Defects
import Calculator.Proofs.Equality
import Calculator.Proofs.Groupings
import Calculator.Proofs.LineEnds
import Calculator.Proofs.Nesting
import Calculator.Proofs.Outlines
import Calculator.Proofs.Pending
import Calculator.Proofs.Powers
import Calculator.Proofs.Prefixes
import Calculator.Proofs.ReadBack
import Calculator.Proofs.Records
import Calculator.Proofs.Reentry
import Calculator.Proofs.Rendering
import Calculator.Proofs.Respacing
import Calculator.Proofs.Results
import Calculator.Proofs.Seams
import Calculator.Proofs.Sessions
import Calculator.Proofs.Sharing
import Calculator.Proofs.Steps
import Calculator.Proofs.Stops
import Calculator.Proofs.Tidiness
import Calculator.Proofs.Tidying
import Calculator.Proofs.TwoDigits
import Calculator.Proofs.ZeroDivisors
import Calculator.Samples
import Calculator.Token.Spacing
import Calculator.Workbench
