import EquationExport.Document.Block
import EquationExport.Text.Digit
import EquationExport.Xml.Writer

/-!
# Writing documents

Blocks as WordprocessingML, without white space between elements. How the pieces of a paragraph are written is a
parameter: an equation is written as a run with its token first. Widths are in twentieths of a point: a table is
as wide as the block it stands in, and its columns share the width evenly.
-/

namespace EquationExport.Document

/-- An attribute in the namespace of documents, as it is written, with the space before it. -/
def setting (name : String) (value : Text) : Text := Xml.writeValue ("w:" ++ Text.ofString name) value

/-- An empty element in the namespace of documents. -/
def empty (name : String) (settings : List (String × Text)) : Text :=
  "<w:" ++ Text.ofString name ++ (settings.flatMap fun (name, value) => setting name value) ++ ("/>" : Text)

/-- An element in the namespace of documents around what is written already. -/
def around (name : String) (content : Text) : Text :=
  "<w:" ++ Text.ofString name ++ (">" : Text) ++ content ++ ("</w:" : Text) ++ Text.ofString name ++ (">" : Text)

/-! ### Runs -/

/-- A piece of text without tabs and line feeds. White space at its ends has to be preserved explicitly. -/
def writePiece (piece : Text) : Text :=
  if piece.isEmpty then []
  else
    let tag : Text := if piece.trim = piece then "<w:t>" else "<w:t xml:space=\"preserve\">"
    tag ++ Xml.escapeText piece ++ ("</w:t>" : Text)

/-- Text as the content of a run; tabs and line ends are elements. `piece` is what has been read since the last one. -/
def writeContent (piece : Text) : Text → Text
  | [] => writePiece piece
  | c :: s =>
    if c = '\t' then writePiece piece ++ empty "tab" [] ++ writeContent [] s
    else if c = '\n' ∨ c = '\r' then writePiece piece ++ empty "br" [] ++ writeContent [] s
    else writeContent (piece ++ [c]) s

/-- The properties of a run. -/
def Run.writeProperties (r : Run) : Text :=
  let font := match r.font with
    | some name => empty "rFonts" [("ascii", name), ("hAnsi", name), ("eastAsia", name)]
    | none => []
  let properties := font ++ (if r.bold then empty "b" [] else []) ++ (if r.italic then empty "i" [] else [])
  if properties.isEmpty then [] else around "rPr" properties

/-- A run as it is written. -/
def Run.write (r : Run) : Text :=
  let inside := r.writeProperties ++ writeContent [] r.content ++ (if r.broken then empty "br" [] else [])
  if inside.isEmpty then empty "r" [] else around "r" inside

/-- A piece as it is written before equations are put in the place of their tokens. -/
def Piece.pending : Piece → Text
  | .run r => r.write
  | .equation item => (Run.placeholder item.token).write

/-! ### Paragraphs -/

/-- The style of a paragraph; lists deeper than three share the style of the third. -/
def ParagraphKind.style? : ParagraphKind → Option Text
  | .heading level => some ("Heading" ++ Text.ofNat level)
  | .item ordered depth =>
    let name : Text := if ordered then "ListNumber" else "ListBullet"
    some (if depth ≤ 1 then name else name ++ Text.ofNat (min depth 3))
  | _ => none

/-- A border on one side. -/
def border (size color : Text) (side : String) : Text :=
  empty side [("val", "single"), ("sz", size), ("space", "0"), ("color", color)]

/-- A background. -/
def shading (fill : Text) : Text := empty "shd" [("val", "clear"), ("color", "auto"), ("fill", fill)]

/-- The box around code. -/
def codeBox : Text :=
  around "pBdr" (["top", "left", "bottom", "right"].flatMap (border "6" "1E293B")) ++ shading "F1F5F9"

/-- The space around a paragraph, its indent and its alignment. -/
def ParagraphKind.layout : ParagraphKind → Text
  | .code => empty "spacing" [("after", "160"), ("before", "80")] ++
      empty "ind" [("left", "180"), ("right", "180")]
  | .quotation => empty "spacing" [("after", "160")] ++ empty "ind" [("left", "360")]
  | .display => empty "spacing" [("after", "160")] ++ empty "jc" [("val", "center")]
  | _ => empty "spacing" [("after", "160")]

/-- The properties of a paragraph. -/
def ParagraphKind.write (kind : ParagraphKind) : Text :=
  let style := match kind.style? with
    | some name => empty "pStyle" [("val", name)]
    | none => []
  around "pPr" (style ++ (if kind = .code then codeBox else []) ++ kind.layout)

/-- A paragraph as it is written. -/
def Paragraph.write (piece : α → Text) (p : Paragraph α) : Text :=
  around "p" (p.kind.write ++ p.content.flatMap piece)

/-! ### Tables -/

/-- The properties of a table. -/
def tableProperties : Text :=
  around "tblPr" (empty "tblStyle" [("val", "TableGrid")] ++ empty "tblW" [("type", "pct"), ("w", "5000")] ++
    around "tblBorders" (["top", "left", "bottom", "right", "insideH", "insideV"].flatMap (border "4" "CBD5F5")) ++
    empty "tblLook" [("firstColumn", "1"), ("firstRow", "1"), ("lastColumn", "0"), ("lastRow", "0"),
      ("noHBand", "0"), ("noVBand", "1"), ("val", "04A0")])

/-- The properties of a cell; the cells of the header have a background. -/
def cellProperties (header : Bool) (width : Nat) : Text :=
  around "tcPr" (empty "tcW" [("type", "dxa"), ("w", Text.ofNat width)] ++
    if header then shading "E2E8F0" else [])

/-- The width of the text on a page. -/
def pageWidth : Nat := 8640

/-- A paragraph with nothing in it. -/
def blankParagraph : Text := empty "p" []

section

variable (piece : α → Text)

mutual

/-- A block as it is written. -/
def Block.write (width : Nat) : Block α → Text
  | .paragraph p => p.write piece
  | .table rows =>
    let columns := (rows.head?.map List.length).getD 1
    let column := width / columns
    let grid := List.replicate columns (empty "gridCol" [("w", Text.ofNat column)])
    around "tbl" (tableProperties ++ around "tblGrid" grid.flatten ++ writeRows column true rows)

/-- The rows of a table; `header` says that the first of them is the header. -/
def writeRows (width : Nat) (header : Bool) : List (List (List (Block α))) → Text
  | [] => []
  | row :: rest => around "tr" (writeCells width header row) ++ writeRows width false rest

/-- The cells of a row. A cell without blocks holds a paragraph with nothing in it. -/
def writeCells (width : Nat) (header : Bool) : List (List (Block α)) → Text
  | [] => []
  | cell :: rest =>
    let inside := if cell.isEmpty then blankParagraph else writeCell width cell
    around "tc" (cellProperties header width ++ inside) ++ writeCells width header rest

/-- The blocks of a cell; a table is followed by a paragraph with nothing in it. -/
def writeCell (width : Nat) : List (Block α) → Text
  | [] => []
  | block :: rest =>
    block.write width ++ (if block.isTable then blankParagraph else []) ++ writeCell width rest

end

/-- The blocks of a document as they are written. -/
def writeBlocks (blocks : List (Block α)) : Text := blocks.flatMap (·.write piece pageWidth)

end

end EquationExport.Document
