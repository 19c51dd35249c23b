import EquationExport.Document.Compose
import EquationExport.Document.Write
import EquationExport.Splice

/-!
# Creating documents

From a page to a document: the page is outlined, the outline is composed, the blocks are written, and the
equations are put in the place of their tokens.
-/

namespace EquationExport.Document

/-- Why no document can be created. -/
inductive Fault where
  /-- The page cannot be read. -/
  | rejected (r : Html.Rejection)
  /-- The page holds text that no document can hold. -/
  | unwritable (e : Xml.Unwritable)
  /-- The run around a token cannot be told. -/
  | misplaced (f : Splice.RunFault)

/-- The wording of a fault. -/
def Fault.message : Fault → Text
  | .rejected r => r.message
  | .unwritable e => e.message
  | .misplaced f => f.message

/-- A document: the text of its main part, and the font of its equations. -/
structure Exported where
  text : Text
  mathFont : Text

/-- What stands before the body of a document. -/
def heading : Text :=
  "<w:document xmlns:w=\"http://schemas.openxmlformats.org/wordprocessingml/2006/main\" xmlns:r=\"http://schemas.openxmlformats.org/officeDocument/2006/relationships\" xmlns:m=\"" ++
    mathNamespace ++ ("\"><w:body>" : Text)

/-- The size of a page, and what ends the body of a document. -/
def ending : Text :=
  "<w:sectPr><w:pgSz w:w=\"12240\" w:h=\"15840\"/><w:pgMar w:top=\"1440\" w:right=\"1800\" w:bottom=\"1440\" w:left=\"1800\" w:header=\"720\" w:footer=\"720\" w:gutter=\"0\"/></w:sectPr></w:body></w:document>"

/-- The text of a document with the given body. -/
def textOf (body : Text) : Text := heading ++ body ++ ending

/-- The text before the last occurrence of `mark`; the whole text if there is none. -/
def beforeLast (mark s : Text) : Text :=
  match Text.breakOn? s.reverse mark.reverse with
  | some (_, before) => before.reverse
  | none => s

/-- The body of a document, up to the size of its pages. -/
def Exported.body (d : Exported) : Text :=
  match d.text.breakOn? "<w:body>" with
  | some (_, rest) => beforeLast "<w:sectPr" rest
  | none => []

/-- The document with given blocks, the equations of a registry in their places. -/
def spliced (mathFont : Text) (blocks : List (Block Piece)) (registry : Registry) : Except Fault Exported :=
  match Splice.spliceAll (textOf (writeBlocks Piece.pending blocks)) registry.replacements with
  | .ok text => .ok ⟨text, mathFont⟩
  | .error f => .error (.misplaced f)

/-- The document of a page. -/
def create (s : Surroundings) (html : Text) : Traced (Except Fault Exported) :=
  match outline html with
  | .error r => pure (.error (.rejected r))
  | .ok blocks => do
    match ← compose s blocks with
    | .error e => pure (.error (.unwritable e))
    | .ok (blocks, registry) => pure (spliced s.settings.mathFont blocks registry)

end EquationExport.Document
