import EquationExport.Html.Node
import EquationExport.Placeholder

/-!
# The blocks of a document

A document is a sequence of blocks: paragraphs and tables, whose cells hold blocks again. What a paragraph
consists of is a parameter. In the outline of a page it is inline pieces, some of which are equations yet to
be converted; in a document that can be written it is runs and equations with their markup.
-/

namespace EquationExport.Document

/-- How a piece of text looks. -/
structure Look where
  bold : Bool
  italic : Bool
  /-- In the font of code. -/
  code : Bool
  deriving DecidableEq

/-- Text without emphasis. -/
def Look.plain : Look := ⟨false, false, false⟩

/-- A piece of a paragraph in the outline of a page. -/
inductive Inline where
  /-- Text, perhaps with a line break after it. -/
  | text (content : Text) (look : Look) (broken : Bool)
  /-- A rendered equation. -/
  | equation (node : Html.Node)

/-- A run: a stretch of text that looks alike, perhaps with a line break after it. -/
structure Run where
  content : Text
  /-- A font other than that of the document. -/
  font : Option Text
  bold : Bool
  italic : Bool
  broken : Bool
  deriving DecidableEq

/-- A run with nothing in it. -/
def Run.blank : Run := ⟨[], none, false, false, false⟩

/-- The run that holds the place of an equation: its token, without emphasis. -/
def Run.placeholder (token : Text) : Run := ⟨token, none, false, false, false⟩

/-- A piece of a paragraph in a document that can be written. -/
inductive Piece where
  | run (r : Run)
  /-- An equation with the markup that is put in the place of its token. -/
  | equation (item : Replacement)
  deriving DecidableEq

/-- What a paragraph is for. -/
inductive ParagraphKind where
  | body
  | heading (level : Nat)
  /-- An item of a list at some depth, counted from 1. -/
  | item (ordered : Bool) (depth : Nat)
  | quotation
  /-- An equation on a line of its own. -/
  | display
  | code
  deriving DecidableEq

/-- What becomes of a paragraph without runs. -/
inductive WhenEmpty where
  | leaveOut
  | keep
  /-- It is kept with a blank run in it. -/
  | fill
  deriving DecidableEq

/-- A paragraph that consists of `α`. -/
structure Paragraph (α : Type) where
  kind : ParagraphKind
  whenEmpty : WhenEmpty
  content : List α

/-- A block whose paragraphs consist of `α`. -/
inductive Block (α : Type) where
  | paragraph (p : Paragraph α)
  /-- A table by rows, the header first. A row is a list of cells, and a cell holds blocks. -/
  | table (rows : List (List (List (Block α))))

/-- A table. -/
def Block.isTable : Block α → Bool
  | .table _ => true
  | .paragraph _ => false

/-- A paragraph that is left out if nothing comes to stand in it. -/
def Block.ofContent (kind : ParagraphKind) (content : List α) : Block α :=
  .paragraph ⟨kind, .leaveOut, content⟩

end EquationExport.Document
