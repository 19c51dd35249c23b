import EquationExport.Document.Block
import EquationExport.Equation.Rendered
import EquationExport.Text.Clean
import EquationExport.Text.Substitution

/-!
# The outline of a page

The tree of a page is walked once, and every part of it becomes a block of the document or a piece of a
paragraph. Neighbouring pieces that stand in no block of their own share a paragraph. What a table's rows
are, and which of them is the header, is settled here; equations are only noted.
-/

namespace EquationExport.Document

open EquationExport.Html (Node)

/-! ### Elements by name -/

/-- The level of a heading. -/
def headingLevel? (node : Node) : Option Nat :=
  if node.isNamed "h1" then some 1
  else if node.isNamed "h2" then some 2
  else if node.isNamed "h3" then some 3
  else if node.isNamed "h4" then some 4
  else if node.isNamed "h5" then some 5
  else if node.isNamed "h6" then some 6
  else none

/-- The elements that are blocks. -/
def blockNames : List Text := [
  "p", "div", "ul", "ol", "li", "table", "pre", "blockquote", "section", "article", "header", "footer", "main",
  "aside", "figure", "hr", "h1", "h2", "h3", "h4", "h5", "h6"]

/-- A list. -/
def isList (node : Node) : Bool := node.isOneOf ["ul", "ol"]

/-- A cell of a table. -/
def isCell (node : Node) : Bool := node.isOneOf ["th", "td"]

/-- The look of what stands inside an element. -/
def Look.inside (look : Look) (name : Text) : Look where
  bold := look.bold || name ∈ (["strong", "b", "th"] : List Text)
  italic := look.italic || name ∈ (["em", "i"] : List Text)
  code := look.code || name ∈ (["code", "kbd", "samp"] : List Text)

/-- A node that stands in a paragraph rather than being a block. -/
def isInline (node : Node) : Bool :=
  match node with
  | .text .. => true
  | .markup .. => false
  | .element name _ _ => if node.isEquation then !node.isDisplay else name ∉ blockNames

/-! ### Pieces of a paragraph -/

mutual

/-- The pieces that a node gives. -/
def inlines (look : Look) (node : Node) : List Inline :=
  match node with
  | .text _ content =>
    let content := content.normalize
    if content.isEmpty then [] else [.text content look false]
  | .markup .. => []
  | .element name attributes children =>
    let element := Node.element name attributes children
    if element.isEquation then [.equation element]
    else if element.hasClass "katex-html" then []
    else if name = "br" then [.text [] .plain true]
    else inlinesOf (look.inside name) children

/-- The pieces that nodes give. -/
def inlinesOf (look : Look) : List Node → List Inline
  | [] => []
  | node :: rest => inlines look node ++ inlinesOf look rest

end

/-- Something that shows: anything but text made of white space. -/
def shows (node : Node) : Bool :=
  match node with
  | .text _ content => !content.normalize.trim.isEmpty
  | _ => true

/-- The paragraph that neighbouring inline nodes share, unless none of them shows. -/
def shared (bold : Bool) (nodes : List Node) : List (Block Inline) :=
  if nodes.any shows then [.ofContent .body (inlinesOf ⟨bold, false, false⟩ nodes)] else []

/-! ### Code -/

/-- The lines of preformatted text; one line feed at the end begins no line. -/
def codeLines (s : Text) : List Text :=
  let s := (Text.normalizePreformatted s).unixLines
  Text.splitOn '\n' (if s.endsWith "\n" then s.dropLast else s)

/-- Lines of code as pieces, with a line break after each but the last. -/
def codePieces : List Text → List Inline
  | [] => []
  | [line] => [.text line ⟨false, false, true⟩ false]
  | line :: rest => .text line ⟨false, false, true⟩ true :: codePieces rest

/-! ### Rows of tables -/

/-- A row of a table as it is found. -/
structure Row where
  /-- The row stands in the head of a table. -/
  inHead : Bool
  /-- The cells, in bold or not. -/
  cells : List (Bool → List (Block Inline))

/-- The number of the header: the first row in the head of a table, or else the first row. -/
def headerIndex (rows : List Row) : Nat := (rows.findIdx? (·.inHead)).getD 0

/-- The cells of a row, filled up with empty ones to a number of columns. -/
def Row.fill (columns : Nat) (bold : Bool) (row : Row) : List (List (Block Inline)) :=
  row.cells.map (· bold) ++ List.replicate (columns - row.cells.length) []

/-- The table that rows make: the header first, in bold, and the others in order. No rows make no table. -/
def tableOf (rows : List Row) : List (Block Inline) :=
  let columns := max 1 ((rows.map (·.cells.length)).foldl max 0)
  let header := headerIndex rows
  match rows[header]? with
  | none => []
  | some row => [.table (row.fill columns true :: (rows.eraseIdx header).map (·.fill columns false))]

/-! ### Blocks -/

/-- Where the walk is. -/
structure Place where
  /-- Text is in bold unless its block says otherwise. -/
  bold : Bool
  /-- The head of a table is around. -/
  inHead : Bool

mutual

/-- The blocks that a block element gives. -/
def block (place : Place) (node : Node) : List (Block Inline) :=
  match node with
  | .text .. => []
  | .markup .. => []
  | .element name attributes children =>
    let element := Node.element name attributes children
    if element.isEquation then
      [.ofContent (if element.isDisplay then .display else .body) [.equation element]]
    else if let some level := headingLevel? element then
      [.ofContent (.heading level) (inlinesOf .plain children)]
    else if name = "ul" then items false 1 children
    else if name = "ol" then items true 1 children
    else if name = "li" then [.paragraph ⟨.item false 1, .keep, inlinesOf .plain children⟩]
    else if name = "table" then tableOf (rowsOf place.inHead children)
    else if name = "pre" then
      [.ofContent .code (codePieces (codeLines element.textContent))]
    else if name = "blockquote" then [.ofContent .quotation (inlinesOf ⟨false, true, false⟩ children)]
    else if name = "hr" then []
    else if name = "p" || !children.any (fun child => child.isElement && !isInline child) then
      [.ofContent .body (inlinesOf ⟨place.bold, false, false⟩ children)]
    else blocksFrom place [] children

/-- The blocks that nodes give; `pending` holds the inline nodes before them that share a paragraph. -/
def blocksFrom (place : Place) (pending : List Node) : List Node → List (Block Inline)
  | [] => shared place.bold pending
  | node :: rest =>
    if isInline node then blocksFrom place (pending ++ [node]) rest
    else shared place.bold pending ++ block place node ++ blocksFrom place [] rest

/-- The items of a list at some depth, those of the lists inside an item behind it. -/
def items (ordered : Bool) (depth : Nat) : List Node → List (Block Inline)
  | [] => []
  | .element name _ children :: rest =>
    (if name = "li" then
      .paragraph ⟨.item ordered depth, .fill, inlinesOf .plain (children.filter fun child => !isList child)⟩ ::
        lists (depth + 1) children
    else []) ++ items ordered depth rest
  | .text .. :: rest => items ordered depth rest
  | .markup .. :: rest => items ordered depth rest

/-- The items of the lists among some nodes. -/
def lists (depth : Nat) : List Node → List (Block Inline)
  | [] => []
  | .element name _ children :: rest =>
    (if name = "ul" then items false depth children
    else if name = "ol" then items true depth children
    else []) ++ lists depth rest
  | .text .. :: rest => lists depth rest
  | .markup .. :: rest => lists depth rest

/-- The rows of a table that a node gives; a table inside has rows of its own. -/
def rows (inHead : Bool) (node : Node) : List Row :=
  match node with
  | .text .. => []
  | .markup .. => []
  | .element name _ children =>
    if name = "table" then []
    else if name = "tr" then ⟨inHead, cells inHead children⟩ :: rowsOf inHead children
    else rowsOf (inHead || name = "thead") children

/-- The rows of a table that nodes give. -/
def rowsOf (inHead : Bool) : List Node → List Row
  | [] => []
  | node :: rest => rows inHead node ++ rowsOf inHead rest

/-- The cells of a row. -/
def cells (inHead : Bool) : List Node → List (Bool → List (Block Inline))
  | [] => []
  | .element name _ children :: rest =>
    (if name = "th" ∨ name = "td" then [fun bold => blocksFrom ⟨bold, inHead⟩ [] children] else []) ++
      cells inHead rest
  | .text .. :: rest => cells inHead rest
  | .markup .. :: rest => cells inHead rest

end

/-- The blocks that a sequence of nodes gives. -/
def blocks (nodes : List Node) : List (Block Inline) := blocksFrom ⟨false, false⟩ [] nodes

/-- What is walked of a page: the content of its first division. -/
def content (page : List Node) : List Node :=
  match (Html.Node.subtrees page).find? (·.isNamed "div") with
  | some node => node.children
  | none => []

/-- The outline of a page, which is read inside a division of its own. -/
def outline (html : Text) : Except Html.Rejection (List (Block Inline)) := do
  return blocks (content (← Html.Node.parse ("<div>" ++ html ++ ("</div>" : Text))))

end EquationExport.Document
