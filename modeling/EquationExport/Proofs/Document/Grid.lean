import EquationExport.Proofs.Document.Flow
import EquationExport.Proofs.Document.Once

/-!
# Tables are grids

The rows of a table are the rows of the page whose nearest table it is, the header first. Every row has as many cells as
the widest has on the page, one at least, and a cell of the grid holds the blocks of the cell of the page that stands
in its place, or none. Composing keeps the grid. Written, all cells of a table have a paragraph at their end, those of tables
in tables as well: a cell without blocks is a paragraph with nothing in it, and so is what follows a table in a cell.

A cell of the page comes to stand in one cell of the grid, as long as no row stands in a cell of another row of the table.
-/

namespace EquationExport.Document

open EquationExport.Html (Node)

/-! ### Rows and cells of the page -/

mutual

/-- The rows of a table that a node gives, and whether they stand in a head; a table inside has rows of its own. -/
def ownRow (inHead : Bool) (node : Node) : List (Bool × Node) :=
  match node with
  | .text .. => []
  | .markup .. => []
  | .element name attributes children =>
    if name = "table" then []
    else if name = "tr" then (inHead, .element name attributes children) :: ownRows inHead children
    else ownRows (inHead || name = "thead") children

/-- The rows of a table that nodes give, and whether they stand in a head. -/
def ownRows (inHead : Bool) : List Node → List (Bool × Node)
  | [] => []
  | node :: rest => ownRow inHead node ++ ownRows inHead rest

end

/-- The cells of a row of the page. -/
def cellsOf (row : Node) : List Node := row.children.filter isCell

/-- The number of columns of a table: the cells of its widest row, and one at least. -/
def columnsOf (rows : List (Bool × Node)) : Nat := max 1 ((rows.map fun row => (cellsOf row.2).length).foldl max 0)

/-- The blocks in a column of a row: those of the cell of the page there, if there is one. -/
def cellAt (bold : Bool) (row : Bool × Node) (column : Nat) : List (Block Inline) :=
  match (cellsOf row.2)[column]? with
  | some cell => blocksFrom ⟨bold, row.1⟩ [] cell.children
  | none => []

/-- A row with all the columns of a table. -/
def lineOf (columns : Nat) (bold : Bool) (row : Bool × Node) : List (List (Block Inline)) :=
  (List.range columns).map (cellAt bold row)

/-- The grid of a table: its rows with the same number of columns each, the header first and in bold. -/
def gridOf (rows : List (Bool × Node)) : List (List (List (Block Inline))) :=
  match headerFirst (·.1) rows with
  | [] => []
  | header :: others => lineOf (columnsOf rows) true header :: others.map (lineOf (columnsOf rows) false)

/-! ### The table of a table element -/

/-- A row of the page as it is found. -/
def foundRow (row : Bool × Node) : Row where
  inHead := row.1
  cells := (cellsOf row.2).map fun cell bold => blocksFrom ⟨bold, row.1⟩ [] cell.children

theorem isCell_element {name : Text} {attributes : List (Text × Text)} {children : List Node} :
    isCell (.element name attributes children) = true ↔ name = "th" ∨ name = "td" := by
  rw [isCell, isOneOf_element]
  simp

theorem cells_eq_map (inHead : Bool) (nodes : List Node) :
    cells inHead nodes = (nodes.filter isCell).map fun cell bold => blocksFrom ⟨bold, inHead⟩ [] cell.children := by
  induction nodes with
  | nil => rw [cells]; rfl
  | cons node rest ih =>
    cases node with
    | text => rw [cells, ih]; rfl
    | markup => rw [cells, ih]; rfl
    | element name attributes children =>
      rw [cells, ih]
      by_cases hcell : name = "th" ∨ name = "td"
      · rw [if_pos hcell, List.filter_cons_of_pos (isCell_element.2 hcell)]
        rfl
      · rw [if_neg hcell, List.filter_cons_of_neg (mt isCell_element.1 hcell)]
        rfl

mutual

theorem rows_eq_map (inHead : Bool) : ∀ node, rows inHead node = (ownRow inHead node).map foundRow
  | .text .. => rfl
  | .markup .. => rfl
  | .element name attributes children => by
    rw [rows, ownRow]
    split_ifs
    · rfl
    · rw [rowsOf_eq_map inHead children, cells_eq_map]
      rfl
    · exact rowsOf_eq_map _ children

theorem rowsOf_eq_map (inHead : Bool) : ∀ nodes, rowsOf inHead nodes = (ownRows inHead nodes).map foundRow
  | [] => rfl
  | node :: rest => by
    rw [rowsOf, ownRows, rows_eq_map inHead node, rowsOf_eq_map inHead rest, List.map_append]

end

theorem length_cellsOf_le {row : Bool × Node} {rows : List (Bool × Node)} (h : row ∈ rows) :
    (cellsOf row.2).length ≤ columnsOf rows := by
  have hle : ∀ (sizes : List Nat) (least : Nat), least ≤ sizes.foldl max least ∧ ∀ n ∈ sizes, n ≤ sizes.foldl max least := by
    intro sizes
    induction sizes with
    | nil => exact fun least => ⟨le_rfl, fun _ hn => absurd hn List.not_mem_nil⟩
    | cons size sizes ih =>
      intro least
      obtain ⟨hleast, hall⟩ := ih (max least size)
      exact ⟨(le_max_left _ _).trans hleast, List.forall_mem_cons.2 ⟨(le_max_right _ _).trans hleast, hall⟩⟩
  have hwidest := (hle (rows.map fun row => (cellsOf row.2).length) 0).2 _ (List.mem_map_of_mem h)
  exact hwidest.trans (le_max_right 1 _)

/-- Filled up to the columns of a table, a row has a cell in each of them. -/
theorem fill_foundRow {row : Bool × Node} {columns : Nat} (h : (cellsOf row.2).length ≤ columns) (bold : Bool) :
    (foundRow row).fill columns bold = lineOf columns bold row := by
  refine List.ext_getElem? fun column => ?_
  rw [lineOf, Row.fill, foundRow, List.map_map, List.length_map, List.getElem?_map]
  by_cases hcell : column < (cellsOf row.2).length
  · rw [List.getElem?_append_left (by simpa using hcell), List.getElem?_map, List.getElem?_range (hcell.trans_le h),
      Option.map_some, cellAt, List.getElem?_eq_getElem hcell]
    rfl
  · have hnone : cellAt bold row column = [] := by rw [cellAt, List.getElem?_eq_none (Nat.le_of_not_lt hcell)]
    rw [List.getElem?_append_right (by simpa using Nat.le_of_not_lt hcell), List.length_map, List.getElem?_replicate]
    by_cases hcolumn : column < columns
    · rw [if_pos (by omega), List.getElem?_range hcolumn, Option.map_some, hnone]
    · rw [if_neg (by omega), List.getElem?_eq_none (by simpa using hcolumn)]
      rfl

theorem headerFirst_map {α β : Type} (p : β → Bool) (f : α → β) (l : List α) :
    headerFirst p (l.map f) = (headerFirst (p ∘ f) l).map f := by
  rw [headerFirst, headerFirst, List.find?_map, List.eraseP_map, List.map_append]
  cases l.find? (p ∘ f) <;> rfl

/-- The rows of a table make its grid. -/
theorem tableOf_map_foundRow {rows : List (Bool × Node)} (h : rows ≠ []) :
    tableOf (rows.map foundRow) = [.table (gridOf rows)] := by
  have hcolumns : max 1 (((rows.map foundRow).map (·.cells.length)).foldl max 0) = columnsOf rows := by
    rw [List.map_map, columnsOf]
    simp only [Function.comp_def, foundRow, List.length_map]
  have hfill : ∀ row ∈ headerFirst (·.1) rows, ∀ bold,
      (foundRow row).fill (columnsOf rows) bold = lineOf (columnsOf rows) bold row :=
    fun row hrow => fill_foundRow (length_cellsOf_le ((headerFirst_perm _ _).mem_iff.1 hrow))
  have hordered : headerFirst (·.inHead) (rows.map foundRow) = (headerFirst (·.1) rows).map foundRow := headerFirst_map _ _ _
  rw [tableOf_eq_headerFirst, hcolumns, hordered, gridOf]
  cases hheader : headerFirst (·.1) rows with
  | nil => exact absurd (List.nil_perm.1 (hheader ▸ headerFirst_perm (·.1) rows)) h
  | cons header others =>
    obtain ⟨hfirst, hothers⟩ := List.forall_mem_cons.1 (hheader ▸ hfill)
    have hrest : (others.map foundRow).map (·.fill (columnsOf rows) false) = others.map (lineOf (columnsOf rows) false) := by
      rw [List.map_map]
      exact List.map_congr_left fun row hrow => hothers row hrow false
    rw [List.map_cons]
    simp only [hfirst true, hrest]

section Element

variable {name : Text} {attributes : List (Text × Text)} {children : List Node}
  (hequation : (Node.element name attributes []).isEquation = false)

include hequation

/-- A table element with rows becomes their grid. -/
theorem block_table (hname : name = "table") (place : Place) (hrows : ownRows place.inHead children ≠ []) :
    block place (.element name attributes children) = [.table (gridOf (ownRows place.inHead children))] := by
  rw [← tableOf_map_foundRow hrows, ← rowsOf_eq_map, block_rows hequation hname]

end Element

theorem length_headerFirst {α : Type} (p : α → Bool) (l : List α) : (headerFirst p l).length = l.length :=
  (headerFirst_perm p l).length_eq

theorem length_gridOf (rows : List (Bool × Node)) : (gridOf rows).length = rows.length := by
  rw [← length_headerFirst (·.1) rows, gridOf]
  cases headerFirst (·.1) rows with
  | nil => rfl
  | cons header others => rw [List.length_cons, List.length_cons, List.length_map]

theorem exists_lineOf {rows : List (Bool × Node)} {line : List (List (Block Inline))} (h : line ∈ gridOf rows) :
    ∃ row ∈ rows, ∃ bold, line = lineOf (columnsOf rows) bold row := by
  have hmem : ∀ row, row ∈ headerFirst (·.1) rows → row ∈ rows := fun row => (headerFirst_perm _ _).mem_iff.1
  rw [gridOf] at h
  cases hheader : headerFirst (·.1) rows with
  | nil => rw [hheader] at h; cases h
  | cons header others =>
    rw [hheader] at h hmem
    rcases List.mem_cons.1 h with rfl | hline
    · exact ⟨header, hmem _ List.mem_cons_self, true, rfl⟩
    · obtain ⟨row, hrow, rfl⟩ := List.mem_map.1 hline
      exact ⟨row, hmem _ (List.mem_cons_of_mem _ hrow), false, rfl⟩

/-! ### Grids in grids -/

/-- All tables of a block have rows and columns, and as many cells in every row as columns. -/
inductive Block.Rectangular {α : Type} : Block α → Prop where
  | paragraph (p : Paragraph α) : Rectangular (.paragraph p)
  | table {rows : List (List (List (Block α)))} {columns : Nat} : rows ≠ [] → 0 < columns →
      (∀ row ∈ rows, row.length = columns) → (∀ row ∈ rows, ∀ cell ∈ row, ∀ block ∈ cell, Rectangular block) →
      Rectangular (.table rows)

theorem columnsOf_pos (rows : List (Bool × Node)) : 0 < columnsOf rows := Nat.lt_of_lt_of_le Nat.one_pos (le_max_left 1 _)

theorem rectangular_gridOf {rows : List (Bool × Node)} (hrows : rows ≠ [])
    (h : ∀ row ∈ rows, ∀ cell ∈ cellsOf row.2, ∀ bold,
      ∀ block ∈ blocksFrom ⟨bold, row.1⟩ [] cell.children, block.Rectangular) :
    (Block.table (gridOf rows)).Rectangular := by
  refine .table ?_ (columnsOf_pos rows) (fun line hline => ?_) fun line hline blocks hblocks => ?_
  · rwa [← List.length_pos_iff, length_gridOf, List.length_pos_iff]
  · obtain ⟨row, -, bold, rfl⟩ := exists_lineOf hline
    rw [lineOf, List.length_map, List.length_range]
  · obtain ⟨row, hrow, bold, rfl⟩ := exists_lineOf hline
    obtain ⟨column, -, rfl⟩ := List.mem_map.1 hblocks
    rw [cellAt]
    cases hcell : (cellsOf row.2)[column]? with
    | none => exact List.forall_mem_nil _
    | some cell => exact h row hrow cell (List.mem_of_getElem? hcell) bold

theorem rectangular_tableOf {rows : List (Bool × Node)}
    (h : ∀ row ∈ rows, ∀ cell ∈ cellsOf row.2, ∀ bold,
      ∀ block ∈ blocksFrom ⟨bold, row.1⟩ [] cell.children, block.Rectangular) :
    ∀ block ∈ tableOf (rows.map foundRow), block.Rectangular := by
  by_cases hrows : rows = []
  · subst hrows
    exact List.forall_mem_nil _
  · rw [tableOf_map_foundRow hrows]
    exact List.forall_mem_singleton.2 (rectangular_gridOf hrows h)

theorem rectangular_shared (bold : Bool) (nodes : List Node) : ∀ block ∈ shared bold nodes, block.Rectangular := by
  rw [shared]
  split
  · exact List.forall_mem_singleton.2 (.paragraph _)
  · exact List.forall_mem_nil _

mutual

theorem rectangular_items (ordered : Bool) (depth : Nat) : ∀ nodes, ∀ block ∈ items ordered depth nodes, block.Rectangular
  | [] => by
    rw [items]
    exact List.forall_mem_nil _
  | .element name _ children :: rest => by
    rw [items, List.forall_mem_append]
    refine ⟨?_, rectangular_items ordered depth rest⟩
    split
    · exact List.forall_mem_cons.2 ⟨.paragraph _, rectangular_lists (depth + 1) children⟩
    · exact List.forall_mem_nil _
  | .text .. :: rest => by
    rw [items]
    exact rectangular_items ordered depth rest
  | .markup .. :: rest => by
    rw [items]
    exact rectangular_items ordered depth rest

theorem rectangular_lists (depth : Nat) : ∀ nodes, ∀ block ∈ lists depth nodes, block.Rectangular
  | [] => by
    rw [lists]
    exact List.forall_mem_nil _
  | .element name _ children :: rest => by
    rw [lists, List.forall_mem_append]
    refine ⟨?_, rectangular_lists depth rest⟩
    split_ifs
    · exact rectangular_items false depth children
    · exact rectangular_items true depth children
    · exact List.forall_mem_nil _
  | .text .. :: rest => by
    rw [lists]
    exact rectangular_lists depth rest
  | .markup .. :: rest => by
    rw [lists]
    exact rectangular_lists depth rest

end

mutual

theorem rectangular_block (place : Place) : ∀ node, ∀ b ∈ block place node, b.Rectangular
  | .text .. => List.forall_mem_nil _
  | .markup .. => List.forall_mem_nil _
  | .element name attributes children => by
    rw [block]
    have hparagraph : ∀ p : Paragraph Inline, ∀ b ∈ [Block.paragraph p], b.Rectangular :=
      fun p => List.forall_mem_singleton.2 (.paragraph p)
    by_cases hequation : (Node.element name attributes children).isEquation = true
    · rw [if_pos hequation]
      exact hparagraph _
    rw [if_neg hequation]
    cases headingLevel? (.element name attributes children) with
    | some level => exact hparagraph _
    | none =>
      dsimp only
      split_ifs
      · exact rectangular_items false 1 children
      · exact rectangular_items true 1 children
      · exact hparagraph _
      · rw [rowsOf_eq_map]
        exact rectangular_tableOf (rectangular_cells place.inHead children)
      · exact hparagraph _
      · exact hparagraph _
      · exact List.forall_mem_nil _
      · exact hparagraph _
      · exact rectangular_flow place children []

theorem rectangular_flow (place : Place) : ∀ (nodes pending : List Node), ∀ b ∈ blocksFrom place pending nodes, b.Rectangular
  | [], pending => by
    rw [blocksFrom]
    exact rectangular_shared place.bold pending
  | node :: rest, pending => by
    rw [blocksFrom]
    split
    · exact rectangular_flow place rest (pending ++ [node])
    · rw [List.forall_mem_append, List.forall_mem_append]
      exact ⟨⟨rectangular_shared place.bold pending, rectangular_block place node⟩, rectangular_flow place rest []⟩

/-- The cells of the rows that a node gives hold grids. -/
theorem rectangular_cell (inHead : Bool) : ∀ node, ∀ row ∈ ownRow inHead node, ∀ cell ∈ cellsOf row.2, ∀ bold,
    ∀ b ∈ blocksFrom ⟨bold, row.1⟩ [] cell.children, b.Rectangular
  | .text .. => List.forall_mem_nil _
  | .markup .. => List.forall_mem_nil _
  | .element name attributes children => by
    rw [ownRow]
    split_ifs
    · exact List.forall_mem_nil _
    · refine List.forall_mem_cons.2 ⟨fun cell hcell bold => ?_, rectangular_cells inHead children⟩
      exact rectangular_children ⟨bold, inHead⟩ children cell (List.mem_filter.1 hcell).1
    · exact rectangular_cells _ children

/-- The cells of the rows that nodes give hold grids. -/
theorem rectangular_cells (inHead : Bool) : ∀ nodes, ∀ row ∈ ownRows inHead nodes, ∀ cell ∈ cellsOf row.2, ∀ bold,
    ∀ b ∈ blocksFrom ⟨bold, row.1⟩ [] cell.children, b.Rectangular
  | [] => List.forall_mem_nil _
  | node :: rest => by
    rw [ownRows, List.forall_mem_append]
    exact ⟨rectangular_cell inHead node, rectangular_cells inHead rest⟩

theorem rectangular_children (place : Place) : ∀ nodes : List Node, ∀ node ∈ nodes,
    ∀ b ∈ blocksFrom place [] node.children, b.Rectangular
  | [] => List.forall_mem_nil _
  | .element _ _ children :: rest =>
    List.forall_mem_cons.2 ⟨rectangular_flow place children [], rectangular_children place rest⟩
  | .text .. :: rest => List.forall_mem_cons.2 ⟨rectangular_flow place [] [], rectangular_children place rest⟩
  | .markup .. :: rest => List.forall_mem_cons.2 ⟨rectangular_flow place [] [], rectangular_children place rest⟩

end

/-! ### Grids that are composed -/

/-- Dropping what shows nothing keeps the grids. -/
theorem Block.Rectangular.settled (s : Surroundings) {block : Block Inline} (h : block.Rectangular) :
    ∀ b ∈ settledBlock s block, b.Rectangular := by
  induction h with
  | paragraph p =>
    rw [settledBlock, Paragraph.settled]
    split
    · cases p.whenEmpty with
      | leaveOut => exact List.forall_mem_nil _
      | keep => exact List.forall_mem_singleton.2 (.paragraph _)
      | fill => exact List.forall_mem_singleton.2 (.paragraph _)
    · exact List.forall_mem_singleton.2 (.paragraph _)
  | @table rows columns hrows hcolumns hlengths _ ih =>
    rw [settledBlock, settledRows_eq_map]
    refine List.forall_mem_singleton.2 (.table (by simpa using hrows) hcolumns ?_ ?_)
    · intro row hrow
      obtain ⟨found, hfound, rfl⟩ := List.mem_map.1 hrow
      rw [List.length_map]
      exact hlengths found hfound
    · intro row hrow cell hcell
      obtain ⟨found, hfound, rfl⟩ := List.mem_map.1 hrow
      obtain ⟨inside, hinside, rfl⟩ := List.mem_map.1 hcell
      intro b hb
      rw [settledBlocks_eq_flatMap, List.mem_flatMap] at hb
      obtain ⟨block, hblock, hb⟩ := hb
      exact ih found hfound inside hinside block hblock b hb

/-- Whether a block is a grid does not depend on its pieces. -/
theorem Block.rectangular_map {α β : Type} {f : α → β} {block : Block α} :
    (block.map f).Rectangular ↔ block.Rectangular := by
  constructor
  · intro h
    generalize hmapped : block.map f = mapped at h
    induction h generalizing block with
    | paragraph p =>
      cases block with
      | paragraph p => exact .paragraph p
      | table rows => cases hmapped
    | table hrows hcolumns hlengths _ ih =>
      cases block with
      | paragraph p => cases hmapped
      | table rows =>
        rw [Block.map, mapRows_eq_map, Block.table.injEq] at hmapped
        subst hmapped
        refine .table (by simpa using hrows) hcolumns (fun row hrow => ?_) fun row hrow cell hcell b hb => ?_
        · simpa using hlengths _ (List.mem_map_of_mem hrow)
        · refine ih _ (List.mem_map_of_mem hrow) _ (List.mem_map_of_mem hcell) (b.map f) ?_ rfl
          rw [mapBlocks_eq_map]
          exact List.mem_map_of_mem hb
  · intro h
    induction h with
    | paragraph p => exact .paragraph _
    | table hrows hcolumns hlengths _ ih =>
      rw [Block.map, mapRows_eq_map]
      refine .table (by simpa using hrows) hcolumns ?_ ?_
      · simpa [List.forall_mem_map] using hlengths
      · simpa [mapBlocks_eq_map, List.forall_mem_map] using ih

/-- What is composed of grids are grids. -/
theorem rectangular_of_untokened {s : Surroundings} {outline : List (Block Inline)} {composed : List (Block Piece)}
    (houtline : ∀ b ∈ outline, b.Rectangular)
    (h : mapBlocks Piece.untokened composed = mapBlocks (·.piece s) (settledBlocks s outline)) :
    ∀ b ∈ composed, b.Rectangular := by
  intro b hb
  have hmem : b.map Piece.untokened ∈ mapBlocks (·.piece s) (settledBlocks s outline) := by
    rw [← h, mapBlocks_eq_map]
    exact List.mem_map_of_mem hb
  rw [mapBlocks_eq_map, settledBlocks_eq_flatMap] at hmem
  obtain ⟨settled, hsettled, hsame⟩ := List.mem_map.1 hmem
  obtain ⟨block, hblock, hsettled⟩ := List.mem_flatMap.1 hsettled
  rw [← Block.rectangular_map, ← hsame, Block.rectangular_map]
  exact (houtline block hblock).settled s settled hsettled

/-! ### Grids as they are written -/

/-- What a stretch of a written document is. -/
inductive Stretch where
  | paragraph
  | table (rows columns : Nat)
  /-- Paragraphs and tables, one after the other. -/
  | flow
  | rows (number columns : Nat)
  | cells (number : Nat)

/-- The written form of stretches of a document: every cell ends with a paragraph, and every row has all columns of its table. -/
inductive Written {α : Type} (piece : α → Text) : Stretch → Text → Prop where
  | blank : Written piece .paragraph blankParagraph
  | paragraph (p : Paragraph α) : Written piece .paragraph (p.write piece)
  | table (width : Nat) {number columns : Nat} {rows : Text} : 0 < number → 0 < columns →
      Written piece (.rows number columns) rows →
      Written piece (.table number columns) (around "tbl" (tableProperties ++
        around "tblGrid" (List.replicate columns (empty "gridCol" [("w", Text.ofNat width)])).flatten ++ rows))
  | nil : Written piece .flow []
  | consParagraph {first rest : Text} : Written piece .paragraph first → Written piece .flow rest →
      Written piece .flow (first ++ rest)
  | consTable {number columns : Nat} {first rest : Text} : Written piece (.table number columns) first →
      Written piece .flow rest → Written piece .flow (first ++ rest)
  | noRows (columns : Nat) : Written piece (.rows 0 columns) []
  | row {number columns : Nat} {cells rest : Text} : Written piece (.cells columns) cells →
      Written piece (.rows number columns) rest → Written piece (.rows (number + 1) columns) (around "tr" cells ++ rest)
  | noCells : Written piece (.cells 0) []
  | cell (header : Bool) (width : Nat) {number : Nat} {front last rest : Text} : Written piece .flow front →
      Written piece .paragraph last → Written piece (.cells number) rest →
      Written piece (.cells (number + 1)) (around "tc" (cellProperties header width ++ (front ++ last)) ++ rest)

namespace Written

variable {α : Type} {piece : α → Text}

/-- What a block is. -/
def IsBlock (piece : α → Text) (block : Block α) (written : Text) : Prop :=
  match block with
  | .paragraph _ => Written piece .paragraph written
  | .table rows => ∃ columns, (∀ row ∈ rows, row.length = columns) ∧ Written piece (.table rows.length columns) written

theorem flow_cons {block : Block α} {first rest : Text} (h : IsBlock piece block first) (hrest : Written piece .flow rest) :
    Written piece .flow (first ++ rest) := by
  cases block with
  | paragraph p => exact .consParagraph h hrest
  | table rows =>
    obtain ⟨columns, -, htable⟩ := h
    exact .consTable htable hrest

/-- The blocks of a cell end with a paragraph, if there are any. -/
theorem exists_writeCell {width : Nat} {cell : List (Block α)} (hcell : cell ≠ [])
    (h : ∀ b ∈ cell, IsBlock piece b (b.write piece width)) :
    ∃ front last, writeCell piece width cell = front ++ last ∧ Written piece .flow front ∧ Written piece .paragraph last := by
  induction cell with
  | nil => exact absurd rfl hcell
  | cons block rest ih =>
    obtain ⟨hblock, hrest⟩ := List.forall_mem_cons.1 h
    rw [writeCell]
    -- Of the last block, a paragraph is the end itself, and a table is followed by one.
    by_cases hlast : rest = []
    · subst hlast
      rw [writeCell, List.append_nil]
      cases block with
      | paragraph p => exact ⟨[], _, List.append_nil _, .nil, hblock⟩
      | table rows => exact ⟨_, blankParagraph, rfl, by simpa using flow_cons hblock .nil, .blank⟩
    · obtain ⟨front, last, hwritten, hfront, hparagraph⟩ := ih hlast hrest
      rw [hwritten, ← List.append_assoc]
      refine ⟨_, last, rfl, ?_, hparagraph⟩
      rw [List.append_assoc]
      refine flow_cons hblock ?_
      cases block with
      | paragraph p => exact hfront
      | table rows => exact .consParagraph .blank hfront

theorem writeCells {width : Nat} (header : Bool) {cells : List (List (Block α))}
    (h : ∀ cell ∈ cells, ∀ b ∈ cell, IsBlock piece b (b.write piece width)) :
    Written piece (.cells cells.length) (Document.writeCells piece width header cells) := by
  induction cells with
  | nil => exact .noCells
  | cons cell rest ih =>
    obtain ⟨hcell, hrest⟩ := List.forall_mem_cons.1 h
    rw [Document.writeCells, List.length_cons]
    by_cases hempty : cell = []
    · subst hempty
      have hblank : Written piece (.cells (rest.length + 1)) (around "tc" (cellProperties header width ++ ([] ++ blankParagraph)) ++
          Document.writeCells piece width header rest) := .cell header width .nil .blank (ih hrest)
      exact hblank
    · obtain ⟨front, last, hwritten, hfront, hlast⟩ := exists_writeCell hempty hcell
      simp only [List.isEmpty_eq_false_iff.2 hempty, Bool.false_eq_true, if_false, hwritten]
      exact .cell header width hfront hlast (ih hrest)

theorem writeRows {width columns : Nat} (header : Bool) {rows : List (List (List (Block α)))}
    (hlengths : ∀ row ∈ rows, row.length = columns)
    (h : ∀ row ∈ rows, ∀ cell ∈ row, ∀ b ∈ cell, IsBlock piece b (b.write piece width)) :
    Written piece (.rows rows.length columns) (Document.writeRows piece width header rows) := by
  induction rows generalizing header with
  | nil => exact .noRows columns
  | cons row rest ih =>
    obtain ⟨hrow, hrest⟩ := List.forall_mem_cons.1 h
    obtain ⟨hlength, hlengths⟩ := List.forall_mem_cons.1 hlengths
    rw [Document.writeRows, List.length_cons]
    exact .row (hlength ▸ writeCells header hrow) (ih false hlengths hrest)

/-- A grid is written as one. -/
theorem write_block {block : Block α} (h : block.Rectangular) (width : Nat) :
    IsBlock piece block (block.write piece width) := by
  induction h generalizing width with
  | paragraph p => exact .paragraph p
  | @table rows columns hrows hcolumns hlengths _ ih =>
    have hhead : (rows.head?.map List.length).getD 1 = columns := by
      cases rows with
      | nil => exact absurd rfl hrows
      | cons row rest => exact hlengths row List.mem_cons_self
    rw [Block.write, hhead]
    refine ⟨columns, hlengths, .table _ (List.length_pos_iff.2 hrows) hcolumns (writeRows true hlengths ?_)⟩
    exact fun row hrow cell hcell b hb => ih row hrow cell hcell b hb _

/-- A grid is written with its rows and columns. -/
theorem write_grid {rows : List (List (List (Block α)))} {columns : Nat} (h : (Block.table rows).Rectangular)
    (hlengths : ∀ row ∈ rows, row.length = columns) (width : Nat) :
    Written piece (.table rows.length columns) ((Block.table rows).write piece width) := by
  obtain ⟨columns', hlengths', hwritten⟩ : IsBlock piece (.table rows) _ := write_block h width
  cases h with
  | table hrows =>
    obtain ⟨row, hrow⟩ := List.exists_mem_of_ne_nil rows hrows
    rwa [← hlengths row hrow, hlengths' row hrow]

/-- Blocks that are grids are written one after the other. -/
theorem writeBlocks {blocks : List (Block α)} (h : ∀ b ∈ blocks, b.Rectangular) :
    Written piece .flow (Document.writeBlocks piece blocks) := by
  induction blocks with
  | nil => exact .nil
  | cons block rest ih =>
    obtain ⟨hblock, hrest⟩ := List.forall_mem_cons.1 h
    exact flow_cons (write_block hblock pageWidth) (ih hrest)

end Written

/-- In the document of a page every table is a grid, and every cell ends with a paragraph. -/
theorem written_of_compose {s : Surroundings} {nodes : List Node} {composed : List (Block Piece)} {registry : Registry}
    (h : (compose s (blocks nodes)).value = .ok (composed, registry)) (piece : Piece → Text) :
    Written piece .flow (writeBlocks piece composed) :=
  .writeBlocks (rectangular_of_untokened (rectangular_flow ⟨false, false⟩ nodes []) (untokened_of_compose h))

/-! ### Cells of the page in the grid -/

theorem ownRow_eq_nil (inHead : Bool) {node : Node} (h : holdsRow node = false) : ownRow inHead node = [] :=
  List.map_eq_nil_iff.1 ((rows_eq_map inHead node).symm.trans (rows_eq_nil inHead h))

mutual

theorem parts_ownRow (inHead : Bool) : ∀ node, CellsApart [node] → Parts ((ownRow inHead node).flatMap (cellsOf ·.2)) [node]
  | .text .., _ => .nil _
  | .markup .., _ => .nil _
  | .element name attributes children, h => by
    rw [ownRow]
    split_ifs with htable hrow
    · exact .nil _
    · subst hrow
      have hrows := parts_ownRows true inHead children h.children fun _ => h.cells
      exact (Parts.split isCell (.refl _) hrows).inside
    · have hrows := parts_ownRows false (inHead || name = "thead") children h.children fun hrow => nomatch hrow
      rw [filter_outside] at hrows
      exact hrows.inside

/-- The rows among the nodes of a row stand beside its cells. -/
theorem parts_ownRows (inRow inHead : Bool) : ∀ nodes, CellsApart nodes →
    (inRow = true → ∀ cell ∈ nodes, isCell cell = true → holdsRow cell = false) →
    Parts ((ownRows inHead nodes).flatMap (cellsOf ·.2)) (nodes.filter fun node => !(inRow && isCell node))
  | [], _, _ => .nil _
  | node :: rest, h, hcells => by
    obtain ⟨hnode, hrest⟩ := cellsApart_cons.1 h
    have hlater := parts_ownRows inRow inHead rest hrest fun hrow cell hcell => hcells hrow cell (List.mem_cons_of_mem _ hcell)
    rw [ownRows, List.flatMap_append]
    by_cases hcell : (inRow && isCell node) = true
    -- The cell itself is counted with its row; that no row stands in it is what keeps it from being counted twice.
    · rw [Bool.and_eq_true] at hcell
      rw [ownRow_eq_nil inHead (hcells hcell.1 node List.mem_cons_self hcell.2), List.filter_cons_of_neg (by simp [hcell])]
      exact hlater
    · rw [List.filter_cons_of_pos (by simp [hcell])]
      exact (parts_ownRow inHead node hnode).cons hlater

end

/-! ### Tables of a page -/

/-- What is composed of a table is a table of the same grid, whose cells are composed one by one. -/
theorem exists_table_of_untokened {s : Surroundings} {grid : List (List (List (Block Inline)))}
    {composed : List (Block Piece)} (h : mapBlocks Piece.untokened composed = mapBlocks (·.piece s) (settledBlock s (.table grid))) :
    ∃ rows, composed = [.table rows] ∧ rows.map (·.map (mapBlocks Piece.untokened)) =
      grid.map (·.map fun cell => mapBlocks (·.piece s) (settledBlocks s cell)) := by
  rw [settledBlock, mapBlocks_eq_map, mapBlocks_eq_map, List.map_singleton, List.map_eq_singleton_iff] at h
  obtain ⟨block, rfl, hblock⟩ := h
  cases block with
  | paragraph => cases hblock
  | table rows =>
    rw [Block.map, Block.map, mapRows_eq_map, mapRows_eq_map, settledRows_eq_map, Block.table.injEq] at hblock
    refine ⟨rows, rfl, hblock.trans ?_⟩
    simp only [List.map_map, Function.comp_def]

/--
A table of a page with at least one row of its own. It becomes the table of its grid, which has a row for each of them, the
header first, as many columns as the widest has cells, and in each column of a row the blocks of the cell there. Its document
is the same grid with the cells composed one by one, unless a text in it cannot be written. As it is written, it has
all its columns in every row, and a paragraph at the end of every cell, at whatever depth; where the page has no cell, the
cell is a paragraph with nothing in it. The cells of the grid come from parts of the page of which no two have a node in
common, if no row of the table stands in a cell of another.
-/
theorem table_grid (place : Place) {attributes : List (Text × Text)} {children : List Node}
    (hequation : (Node.element "table" attributes []).isEquation = false) (hrows : ownRows place.inHead children ≠ []) :
    let rows := ownRows place.inHead children
    block place (.element "table" attributes children) = [.table (gridOf rows)] ∧
      (gridOf rows).length = rows.length ∧
      (∀ line ∈ gridOf rows, line.length = columnsOf rows) ∧
      (∀ s, Yields (composeBlock s (.table (gridOf rows))) ((contentOfRows (gridOf rows)).flatMap (·.texts s))
        ((contentOfRows (gridOf rows)).flatMap (·.calls s)) fun blocks => ∃ composed, blocks = [.table composed] ∧
          composed.map (·.map (mapBlocks Piece.untokened)) =
            (gridOf rows).map (·.map fun cell => mapBlocks (·.piece s) (settledBlocks s cell)) ∧
          ∀ piece width, Written piece (.table rows.length (columnsOf rows)) (Block.write piece width (.table composed))) ∧
      (∀ (piece : Piece → Text) width header,
        writeCells piece width header [[]] = around "tc" (cellProperties header width ++ blankParagraph)) ∧
      (CellsApart children → Parts (rows.flatMap fun row => cellsOf row.2) children) := by
  intro rows
  have hlines : ∀ line ∈ gridOf rows, line.length = columnsOf rows := by
    intro line hline
    obtain ⟨row, -, bold, rfl⟩ := exists_lineOf hline
    rw [lineOf, List.length_map, List.length_range]
  have hblock := block_table hequation rfl place hrows
  refine ⟨hblock, length_gridOf rows, hlines, fun s => ?_, fun _ _ _ => by simp [writeCells], fun h => ?_⟩
  · refine (yields_composeBlock s (.table (gridOf rows))).mono fun blocks hblocks => ?_
    obtain ⟨composed, rfl, hcomposed⟩ := exists_table_of_untokened hblocks
    refine ⟨composed, rfl, hcomposed, fun piece width => ?_⟩
    have hgrid : ∀ b ∈ [Block.table (gridOf rows)], b.Rectangular := hblock ▸ rectangular_block place _
    have hall : ∀ b ∈ [Block.table composed], b.Rectangular := by
      refine rectangular_of_untokened (s := s) hgrid ?_
      rwa [settledBlocks, settledBlocks, List.append_nil]
    have hlengths := congrArg (List.map List.length) hcomposed
    simp only [List.map_map, Function.comp_def, List.length_map] at hlengths
    have hcount : composed.length = rows.length := by simpa [length_gridOf] using congrArg List.length hlengths
    rw [← hcount]
    refine Written.write_grid (List.forall_mem_singleton.1 hall) (fun line hline => ?_) width
    have hmem : line.length ∈ (gridOf rows).map List.length := hlengths ▸ List.mem_map_of_mem hline
    obtain ⟨line', hline', hlength⟩ := List.mem_map.1 hmem
    rw [← hlength, hlines line' hline']
  · have hparts := parts_ownRows false place.inHead children h fun hrow => nomatch hrow
    rwa [filter_outside] at hparts

/-- A table with a table in a cell, a row with a cell less, and its head behind both: a grid of three rows and two columns. -/
theorem table_grid_nested :
    let inner : Node := .element "table" [] [.element "tr" [] [.element "td" [] [.text .plain "x"]]]
    let children : List Node := [
      .element "tr" [] [.element "td" [] [.text .plain "a"], .element "td" [] [inner]],
      .element "tr" [] [.element "td" [] []],
      .element "thead" [] [.element "tr" [] [.element "th" [] [.text .plain "h"], .element "th" [] [.text .plain "i"]]]]
    let rows := ownRows false children
    rows ≠ [] ∧ CellsApart children ∧ block ⟨false, false⟩ (.element "table" [] children) = [.table (gridOf rows)] ∧
      (gridOf rows).map List.length = [2, 2, 2] ∧ Parts (rows.flatMap fun row => cellsOf row.2) children := by
  intro inner children rows
  have hlength : rows.length = 3 := by decide +kernel
  have hrows : rows ≠ [] := List.ne_nil_of_length_pos (hlength ▸ Nat.succ_pos 2)
  have hapart : CellsApart children := by decide +kernel
  have hcolumns : columnsOf rows = 2 := by decide +kernel
  have hequation : (Node.element "table" [] []).isEquation = false := by decide
  obtain ⟨hblock, hcount, hlines, -, -, hparts⟩ := table_grid ⟨false, false⟩ hequation hrows
  refine ⟨hrows, hapart, hblock, ?_, hparts hapart⟩
  refine List.eq_replicate_iff.2 ⟨(List.length_map List.length).trans (hcount.trans hlength), fun n hn => ?_⟩
  obtain ⟨line, hline, rfl⟩ := List.mem_map.1 hn
  exact (hlines line hline).trans hcolumns

/-- The piece is the given text. -/
def Inline.isText (content : Text) : Inline → Bool
  | .text other _ _ => other = content
  | .equation _ => false

/-- A table of one column whose first two rows hold the given text, the first one with another text. -/
def isTwice (other content : Text) : List (Block Inline) → Bool
  | [.table [[first], [second]]] =>
    (contentOfBlocks first).any (·.isText other) && (contentOfBlocks first).any (·.isText content) &&
      (contentOfBlocks second).any (·.isText content)
  | _ => false

theorem exists_of_isTwice {other content : Text} {outline : List (Block Inline)} (h : isTwice other content outline = true) :
    ∃ first second, outline = [.table [[first], [second]]] ∧ (contentOfBlocks first).any (·.isText other) = true ∧
      (contentOfBlocks first).any (·.isText content) = true ∧ (contentOfBlocks second).any (·.isText content) = true := by
  unfold isTwice at h
  split at h
  · rw [Bool.and_eq_true, Bool.and_eq_true] at h
    exact ⟨_, _, rfl, h.1.1, h.1.2, h.2⟩
  · cases h

/-- A row in a cell of another row, as it is found where end tags are left out: one of two texts stands in two cells. -/
theorem cell_twice :
    let html : Text := "<div><table><tr><td>a<tr><td>b</table></div>"
    ∃ page first second, Node.parse html = .ok page ∧ ((Node.subtrees page).filter (·.isText)).length = 2 ∧
      blocks (content page) = [.table [[first], [second]]] ∧ (contentOfBlocks first).any (·.isText "a") = true ∧
      (contentOfBlocks first).any (·.isText "b") = true ∧ (contentOfBlocks second).any (·.isText "b") = true := by
  intro html
  have hpage : (Node.parse html).toOption.any (fun page => ((Node.subtrees page).filter (·.isText)).length == 2 &&
      isTwice "a" "b" (blocks (content page))) = true := by decide +kernel
  obtain ⟨page, hparse, htest⟩ := exists_ok_of_any hpage
  rw [Bool.and_eq_true, beq_iff_eq] at htest
  obtain ⟨first, second, hblocks, htwice⟩ := exists_of_isTwice htest.2
  exact ⟨page, first, second, hparse, htest.1, hblocks, htwice⟩

end EquationExport.Document
