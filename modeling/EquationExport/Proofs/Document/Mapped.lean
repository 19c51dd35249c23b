import EquationExport.Proofs.Document.Frame

/-!
# Blocks with other pieces

The pieces of blocks can be exchanged one by one, and the blocks stay as they are. Written, such blocks are the old
ones with another way to write a piece, since what is written around the pieces does not depend on them.
-/

namespace EquationExport.Document

variable {α β : Type}

/-- A paragraph with each piece exchanged. -/
def Paragraph.map (f : α → β) (p : Paragraph α) : Paragraph β := ⟨p.kind, p.whenEmpty, p.content.map f⟩

mutual

/-- A block with each piece exchanged. -/
def Block.map (f : α → β) : Block α → Block β
  | .paragraph p => .paragraph (p.map f)
  | .table rows => .table (mapRows f rows)

/-- The rows of a table with each piece exchanged. -/
def mapRows (f : α → β) : List (List (List (Block α))) → List (List (List (Block β)))
  | [] => []
  | row :: rest => mapCells f row :: mapRows f rest

/-- The cells of a row with each piece exchanged. -/
def mapCells (f : α → β) : List (List (Block α)) → List (List (Block β))
  | [] => []
  | cell :: rest => mapBlocks f cell :: mapCells f rest

/-- Blocks with each piece exchanged. -/
def mapBlocks (f : α → β) : List (Block α) → List (Block β)
  | [] => []
  | block :: rest => block.map f :: mapBlocks f rest

end

variable (f : α → β)

theorem mapBlocks_eq_map (blocks : List (Block α)) : mapBlocks f blocks = blocks.map (Block.map f) := by
  induction blocks with
  | nil => rfl
  | cons block blocks ih => rw [mapBlocks, ih, List.map_cons]

theorem mapCells_eq_map (cells : List (List (Block α))) : mapCells f cells = cells.map (mapBlocks f) := by
  induction cells with
  | nil => rfl
  | cons cell rest ih => rw [mapCells, ih, List.map_cons]

theorem mapRows_eq_map (rows : List (List (List (Block α)))) :
    mapRows f rows = rows.map (·.map (mapBlocks f)) := by
  induction rows with
  | nil => rfl
  | cons row rest ih => rw [mapRows, ih, mapCells_eq_map, List.map_cons]

theorem mapBlocks_append (blocks more : List (Block α)) :
    mapBlocks f (blocks ++ more) = mapBlocks f blocks ++ mapBlocks f more := by
  induction blocks with
  | nil => rfl
  | cons block blocks ih => simp [mapBlocks, ih]

/-! ### Content -/

mutual

theorem Block.content_map : ∀ block : Block α, (block.map f).content = block.content.map f
  | .paragraph p => by rw [Block.map, Block.content, Block.content, Paragraph.map]
  | .table rows => by rw [Block.map, Block.content, Block.content, contentOfRows_map rows]

theorem contentOfRows_map : ∀ rows : List (List (List (Block α))), contentOfRows (mapRows f rows) = (contentOfRows rows).map f
  | [] => rfl
  | row :: rest => by
    rw [mapRows, contentOfRows, contentOfRows, List.map_append, contentOfCells_map row, contentOfRows_map rest]

theorem contentOfCells_map : ∀ cells : List (List (Block α)), contentOfCells (mapCells f cells) = (contentOfCells cells).map f
  | [] => rfl
  | cell :: rest => by
    rw [mapCells, contentOfCells, contentOfCells, List.map_append, contentOfBlocks_map cell, contentOfCells_map rest]

theorem contentOfBlocks_map : ∀ blocks : List (Block α), contentOfBlocks (mapBlocks f blocks) = (contentOfBlocks blocks).map f
  | [] => rfl
  | block :: rest => by
    rw [mapBlocks, contentOfBlocks, contentOfBlocks, List.map_append, block.content_map, contentOfBlocks_map rest]

end

/-! ### Writing -/

@[simp] theorem Block.isTable_map (block : Block α) : (block.map f).isTable = block.isTable := by
  cases block <;> rfl

theorem length_mapCells (cells : List (List (Block α))) : (mapCells f cells).length = cells.length := by
  induction cells with
  | nil => rfl
  | cons cell cells ih => rw [mapCells, List.length_cons, List.length_cons, ih]

theorem head?_mapRows (rows : List (List (List (Block α)))) :
    (mapRows f rows).head?.map List.length = rows.head?.map List.length := by
  cases rows with
  | nil => rfl
  | cons row rest => exact congrArg some (length_mapCells f row)

theorem isEmpty_mapBlocks (blocks : List (Block α)) : (mapBlocks f blocks).isEmpty = blocks.isEmpty := by
  cases blocks <;> rfl

variable (piece : β → Text)

mutual

theorem Block.write_map (width : Nat) : ∀ block : Block α, (block.map f).write piece width = block.write (piece ∘ f) width
  | .paragraph p => by
    rw [Block.map, Block.write, Block.write, Paragraph.write, Paragraph.write, Paragraph.map, List.flatMap_map]
    rfl
  | .table rows => by
    rw [Block.map, Block.write, Block.write]
    simp only [head?_mapRows, writeRows_map _ true rows]

theorem writeRows_map (width : Nat) (header : Bool) : ∀ rows : List (List (List (Block α))),
    writeRows piece width header (mapRows f rows) = writeRows (piece ∘ f) width header rows
  | [] => rfl
  | row :: rest => by
    rw [mapRows, writeRows, writeRows, writeCells_map width header row, writeRows_map width false rest]

theorem writeCells_map (width : Nat) (header : Bool) : ∀ cells : List (List (Block α)),
    writeCells piece width header (mapCells f cells) = writeCells (piece ∘ f) width header cells
  | [] => rfl
  | cell :: rest => by
    rw [mapCells, writeCells, writeCells]
    simp only [isEmpty_mapBlocks, writeCell_map width cell, writeCells_map width header rest]

theorem writeCell_map (width : Nat) : ∀ blocks : List (Block α),
    writeCell piece width (mapBlocks f blocks) = writeCell (piece ∘ f) width blocks
  | [] => rfl
  | block :: rest => by
    rw [mapBlocks, writeCell, writeCell, block.write_map, Block.isTable_map, writeCell_map width rest]

end

/-- Blocks with other pieces are written as the old ones with another way to write a piece. -/
theorem writeBlocks_mapBlocks (blocks : List (Block α)) :
    writeBlocks piece (mapBlocks f blocks) = writeBlocks (piece ∘ f) blocks := by
  induction blocks with
  | nil => rfl
  | cons block blocks ih =>
    rw [mapBlocks, writeBlocks, List.flatMap_cons, block.write_map, ← writeBlocks, ih]
    rfl

end EquationExport.Document
