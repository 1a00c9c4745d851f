import FormulaSheet.Main
import FormulaSheet.Proofs.Formula.BottomUp
import FormulaSheet.Proofs.Csv.RoundTrip
import FormulaSheet.Proofs.Formula.Reuse
import FormulaSheet.Proofs.Binary64.Literal
import FormulaSheet.Proofs.Binary64.RoundTrip
import FormulaSheet.Proofs.Csv.Evaluation
import FormulaSheet.Proofs.Expression.Rendering
import FormulaSheet.Proofs.Formula.Freezing
import FormulaSheet.Proofs.Formula.Symbol
import FormulaSheet.Proofs.Formula.WellFormed
import FormulaSheet.Proofs.Formula.Dependence
import FormulaSheet.Proofs.Formula.Termination
import FormulaSheet.Proofs.Document.Reports
import FormulaSheet.Proofs.CommandLine.Outcome
import FormulaSheet.Proofs.Sheet.Finality
import FormulaSheet.Proofs.Formula.Degradation
import FormulaSheet.Proofs.Formula.Sign
import FormulaSheet.Proofs.Csv.Independence
import FormulaSheet.Proofs.Csv.LineEnd
import FormulaSheet.Proofs.Address.Column
import FormulaSheet.Proofs.Formula.Cut
import FormulaSheet.Proofs.Address.Text
import FormulaSheet.Proofs.Expression.Spacing
import FormulaSheet.Proofs.Formula.Substitution
import FormulaSheet.Proofs.Binary64.Exact
import FormulaSheet.Proofs.Expression.Invariant
import FormulaSheet.Proofs.CommandLine.Configuration
