import IndexAlgebra.Analysis.Scope
import IndexAlgebra.Analysis.Record
import IndexAlgebra.Bound.Arith
import IndexAlgebra.Exchange.Instances
import IndexAlgebra.Expr.Equal
import IndexAlgebra.Expr.Transformer
import IndexAlgebra.Expr.Sharing
import IndexAlgebra.Expr.Walker
import IndexAlgebra.Json.Reader
import IndexAlgebra.Main
import IndexAlgebra.Report
import IndexAlgebra.Proofs.Analysis.Constraint
import IndexAlgebra.Proofs.Analysis.Memo
import IndexAlgebra.Proofs.Analysis.Restore
import IndexAlgebra.Proofs.Analysis.Soundness
import IndexAlgebra.Version
import IndexAlgebra.Proofs.Bound.Narrowing
import IndexAlgebra.Proofs.Analysis.Narrowing
import IndexAlgebra.Proofs.Expr.Position
import IndexAlgebra.Proofs.Expr.Equal
import IndexAlgebra.Proofs.Expr.Replacement
import IndexAlgebra.Proofs.Expr.Transformer
import IndexAlgebra.Proofs.Analysis.Inlining
import IndexAlgebra.Proofs.Evaluation.Wrapping
import IndexAlgebra.Proofs.Folding
import IndexAlgebra.Proofs.Context
import IndexAlgebra.Proofs.Smart
import IndexAlgebra.Proofs.Reduct
import IndexAlgebra.Proofs.Analysis.Precision
import IndexAlgebra.Proofs.Irreducible
import IndexAlgebra.Proofs.Bound.Checked
import IndexAlgebra.Proofs.Analysis.Checked
import IndexAlgebra.Proofs.Analysis.Safety
import IndexAlgebra.Proofs.Analysis.Run
import IndexAlgebra.Proofs.DataType.Spelling
import IndexAlgebra.Proofs.Expr.Walker
import IndexAlgebra.Proofs.Analysis.Dependence
import IndexAlgebra.Proofs.Analysis.Copies
import IndexAlgebra.Proofs.Analysis.Repetition
import IndexAlgebra.Proofs.Bound.Best
import IndexAlgebra.Proofs.Analysis.Binding
import IndexAlgebra.Proofs.Ceiling
import IndexAlgebra.Proofs.Shift
import IndexAlgebra.Proofs.Bound.Sets
import IndexAlgebra.Proofs.Analysis.Recording
import IndexAlgebra.Proofs.ClosedArithmetic
import IndexAlgebra.Proofs.Report
import IndexAlgebra.Proofs.Interning
import IndexAlgebra.Proofs.Bound.Saturation
import IndexAlgebra.Proofs.Bound.WordCorners
