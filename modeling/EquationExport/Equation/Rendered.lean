import EquationExport.Equation.Source
import EquationExport.Html.Tree
import EquationExport.Html.Writer

/-!
# Equations on a page

A rendered equation is an element of the class `katex`, or `katex-display` if it is set off. Inside it the
renderer has left what the equation was made from: MathML, and the LaTeX as an annotation to it. Where the
annotation is missing, the title of the element or its text may be LaTeX; a backslash tells.
-/

namespace EquationExport.Html.Node

/-- A rendered equation. -/
def isEquation (node : Node) : Bool := node.hasClass "katex" || node.hasClass "katex-display"

/-- A rendered equation that is set off on a line of its own. -/
def isDisplay (node : Node) : Bool :=
  node.hasClass "katex-display" ||
    (node.findNamed? "math").any fun math => math.attribute? "display" == some ("block" : Text)

/-- The encodings of annotations that hold LaTeX. -/
def latexEncodings : List Text := ["application/x-tex", "application/x-latex", "application/tex"]

/-- The LaTeX that an annotation holds. -/
def latexNote? (note : Node) : Option Text :=
  if ((note.attribute? "encoding").getD []).map (·.asciiLower) ∈ latexEncodings then
    nonempty? (some note.textContent.trim)
  else none

/-- The LaTeX of the first annotation that holds any. -/
def annotatedLatex? (node : Node) : Option Text :=
  (node.descendants.filter (·.isNamed "annotation")).findSome? latexNote?

/-- The title, if it looks like LaTeX: it holds a backslash, is not too long and reports no error. -/
def titleLatex? (maxLength : Int) (node : Node) : Option Text :=
  let title := ((node.attribute? "title").getD []).trim
  if title.containsPoint '\\' && title.length < maxLength &&
      (title.dropPrefixCaseless? "ParseError:").isNone then
    some title
  else none

/-- The text, if it looks like LaTeX. -/
def textLatex? (node : Node) : Option Text :=
  let text := node.textContent.trim
  if text.containsPoint '\\' then some text else none

/-- The LaTeX behind an equation. -/
def latex? (maxTitleLength : Int) (node : Node) : Option Text :=
  (node.annotatedLatex?.or (node.titleLatex? maxTitleLength)).or node.textLatex?

/-- The MathML inside an equation. -/
def mathml? (node : Node) : Option Text := (node.findNamed? "math").map (·.write)

/-- The sources of an equation. -/
def sources (maxTitleLength : Int) (node : Node) : MathElement :=
  ⟨node.latex? maxTitleLength, node.mathml?, node.isDisplay⟩

/-- What is shown for an equation that cannot be converted: its LaTeX, or else its text. -/
def fallbackText (maxTitleLength : Int) (node : Node) : Text :=
  match nonempty? (node.latex? maxTitleLength) with
  | some latex => latex
  | none => ((node.descendants.find? (·.hasClass "katex-mathml")).getD node).spacedText

/-- The equations of a page, those inside others included. -/
def equations (page : List Node) : List Node := (subtrees page).filter (·.isEquation)

end EquationExport.Html.Node
