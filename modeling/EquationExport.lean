import EquationExport.Main
import EquationExport.Mathml.Clean
import EquationExport.Omml.Edit
import EquationExport.Service
import EquationExport.Proofs.Document.Placement
import EquationExport.Proofs.Splice.AtOnce
import EquationExport.Proofs.Equation.Fraction
import EquationExport.Proofs.Omml.Bar
import EquationExport.Proofs.Omml.Base
import EquationExport.Proofs.Omml.Glyphs
import EquationExport.Proofs.Omml.Idempotent
import EquationExport.Proofs.Latex.Fusion
import EquationExport.Proofs.Omml.NormalForm
import EquationExport.Proofs.Document.Finished
import EquationExport.Proofs.Document.Isolated
import EquationExport.Proofs.Document.Once
import EquationExport.Proofs.Document.Unabridged
import EquationExport.Proofs.Equation.FirstUsable
import EquationExport.Proofs.Omml.Lossless
import EquationExport.Proofs.Latex.Nesting
import EquationExport.Proofs.Mathml.TreeCleaning
import EquationExport.Proofs.Omml.Promotion
import EquationExport.Proofs.Omml.Enclosed
import EquationExport.Proofs.Omml.Fixpoint
import EquationExport.Proofs.Omml.Brackets
import EquationExport.Proofs.Omml.Glued
import EquationExport.Proofs.Omml.TopFraction
import EquationExport.Proofs.Omml.Limits
import EquationExport.Proofs.Omml.Fallback
import EquationExport.Proofs.Omml.Adoption
import EquationExport.Proofs.Omml.Invisible
import EquationExport.Proofs.Latex.Rounds
import EquationExport.Proofs.Latex.Argument
import EquationExport.Proofs.Latex.Removal
import EquationExport.Proofs.Document.Acceptance
import EquationExport.Proofs.Mathml.Fences
import EquationExport.Proofs.Html.Division
import EquationExport.Proofs.Document.Comment
import EquationExport.Proofs.Document.Listing
import EquationExport.Proofs.Document.Spacing
import EquationExport.Proofs.Document.Code
import EquationExport.Proofs.Splice.Batch
import EquationExport.Proofs.Splice.References
import EquationExport.Proofs.Splice.RootTag
import EquationExport.Proofs.Splice.Wrapping
import EquationExport.Proofs.Splice.Bounds
import EquationExport.Proofs.Omml.SchemaOrder
import EquationExport.Proofs.Omml.LiveSpan
import EquationExport.Proofs.CommandLine
