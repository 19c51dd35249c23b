import EquationExport.Document.Outline
import EquationExport.Placeholder
import EquationExport.Settings
import EquationExport.Xml.Writer

/-!
# Composing a document

The outline of a page becomes a document of runs and equations. In the order of the document, each equation is
converted and registered, which gives it a token; an equation that cannot be converted shows its source
instead, in the font of code. Composing ends at the first text that no document can hold.
-/

namespace EquationExport.Document

/-- A computation that asks converters, hands out tokens, and may meet text that cannot be written. -/
abbrev Composing := StateT Registry (ExceptT Xml.Unwritable Traced)

/-- What composing depends on. -/
structure Surroundings where
  converters : Converters
  settings : Settings

/-- Lets a text pass that a document can hold. -/
def allow (s : Text) : Composing Text :=
  match Xml.writable s with
  | .ok s => pure s
  | .error e => throw e

/-- A run of text in a given look. -/
def composeText (s : Surroundings) (content : Text) (look : Look) (broken : Bool) : Composing Run := do
  let content ← allow content
  if look.code then
    let font ← allow s.settings.codeFont
    return ⟨content, some font, look.bold, look.italic, broken⟩
  return ⟨content, none, look.bold, look.italic, broken⟩

/-- The markup of a rendered equation, or nothing if it cannot be converted. -/
def markupOf (s : Surroundings) (node : Html.Node) : Composing (Option Text) := do
  let markup ← (liftM ((node.sources s.settings.maxTitleLatexLength).build s.converters) : Composing (Option Text))
  return nonempty? markup

/-- What stands for an equation: the equation under its token, or its source if there is one. -/
def composeEquation (s : Surroundings) (node : Html.Node) : Composing (List Piece) := do
  match ← markupOf s node with
  | some omml =>
    let token ← modifyGet fun registry => registry.register omml node.isDisplay
    return [.equation ⟨token, omml, node.isDisplay⟩]
  | none =>
    let source := (node.fallbackText s.settings.maxTitleLatexLength).sanitize
    if source.isEmpty then return []
    return [.run (← composeText s source ⟨false, false, true⟩ false)]

/-- What stands for a piece of a paragraph. -/
def composeInline (s : Surroundings) : Inline → Composing (List Piece)
  | .text content look broken => do return [.run (← composeText s content look broken)]
  | .equation node => composeEquation s node

/-- The content of a paragraph, one piece after the other. -/
def composeInlines (s : Surroundings) : List Inline → Composing (List Piece)
  | [] => pure []
  | piece :: rest => do
    let pieces ← composeInline s piece
    let later ← composeInlines s rest
    return pieces ++ later

/-- A paragraph with its content, or nothing if it is left out. -/
def Paragraph.settle (p : Paragraph Inline) (pieces : List Piece) : List (Block Piece) :=
  if pieces.isEmpty then
    match p.whenEmpty with
    | .leaveOut => []
    | .keep => [.paragraph ⟨p.kind, p.whenEmpty, []⟩]
    | .fill => [.paragraph ⟨p.kind, p.whenEmpty, [.run .blank]⟩]
  else [.paragraph ⟨p.kind, p.whenEmpty, pieces⟩]

mutual

/-- A block with its content. -/
def composeBlock (s : Surroundings) : Block Inline → Composing (List (Block Piece))
  | .paragraph p => do return p.settle (← composeInlines s p.content)
  | .table rows => do return [.table (← composeRows s rows)]

/-- Blocks with their content. -/
def composeBlocks (s : Surroundings) : List (Block Inline) → Composing (List (Block Piece))
  | [] => pure []
  | block :: rest => do
    let first ← composeBlock s block
    let later ← composeBlocks s rest
    return first ++ later

/-- The cells of a row with their content. -/
def composeCells (s : Surroundings) : List (List (Block Inline)) → Composing (List (List (Block Piece)))
  | [] => pure []
  | cell :: rest => do
    let first ← composeBlocks s cell
    let later ← composeCells s rest
    return first :: later

/-- The rows of a table with their content. -/
def composeRows (s : Surroundings) :
    List (List (List (Block Inline))) → Composing (List (List (List (Block Piece))))
  | [] => pure []
  | row :: rest => do
    let first ← composeCells s row
    let later ← composeRows s rest
    return first :: later

end

/-- The document of an outline and the equations that its tokens stand for. The font of equations is looked at first. -/
def compose (s : Surroundings) (outline : List (Block Inline)) :
    Traced (Except Xml.Unwritable (List (Block Piece) × Registry)) :=
  let composed : Composing (List (Block Piece)) := do
    let _ ← allow s.settings.mathFont
    composeBlocks s outline
  (composed.run .empty).run

end EquationExport.Document
