import DisciplinedConvex.Proofs.Graph.Affine
import DisciplinedConvex.Proofs.Graph.Live
import DisciplinedConvex.Proofs.Graph.Sums
import DisciplinedConvex.Proofs.Indexing.ColumnMajor
import DisciplinedConvex.Proofs.Indexing.Transposed
import DisciplinedConvex.Proofs.Numbering.Log
import DisciplinedConvex.Proofs.Rendering.Decimal
import DisciplinedConvex.Proofs.Rendering.Quoted
import DisciplinedConvex.Proofs.Rendering.Reading
import DisciplinedConvex.Proofs.Renumbering.Run
import DisciplinedConvex.Proofs.Replacement.Run
import DisciplinedConvex.Proofs.Soundness.Definedness
import DisciplinedConvex.Proofs.Soundness.Offender
import DisciplinedConvex.Proofs.Soundness.Product
import DisciplinedConvex.Proofs.Soundness.Quotient
import DisciplinedConvex.Proofs.Soundness.Storage
import DisciplinedConvex.Proofs.Soundness.Verdict
import DisciplinedConvex.Proofs.Traversal.Variables
import DisciplinedConvex.Session
