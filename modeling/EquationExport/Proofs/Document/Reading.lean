import Mathlib.Data.List.Forall2
import EquationExport.Document.Outline
import EquationExport.Proofs.Document.Frame

/-!
# Reading a page

What a page says is said by its text, its line breaks, its preformatted text and its equations, in the order in which
they stand on the page, with a few exceptions that lists and tables make: of a list its items are read, and the
lists inside an item after everything else in it; of a table the cells are read, and the header comes first. The
outline of a page is what is read of it, piece by piece. Only white space may be left out, where nothing else
stands in its paragraph.

Where a row stands in a cell of another row of the same table, the row is read as a part of the cell. The outline
has it as a row of the table as well, so such pages are left out.
-/

namespace EquationExport.Document

open EquationExport.Html (Node)

/-! ### The order of reading -/

mutual

/-- What is read of an inline node. -/
def readInline (node : Node) : List Node :=
  match node with
  | .text kind content => [.text kind content]
  | .markup .. => []
  | .element name attributes children =>
    let element := Node.element name attributes children
    if element.isEquation then [element]
    else if element.hasClass "katex-html" then []
    else if name = "br" then [element]
    else readInlines children

/-- What is read of inline nodes. -/
def readInlines : List Node → List Node
  | [] => []
  | node :: rest => readInline node ++ readInlines rest

end

mutual

/-- What is read of a list. -/
def readItems : List Node → List Node
  | [] => []
  | .element name _ children :: rest =>
    (if name = "li" then readInlines (children.filter fun child => !isList child) ++ readLists children else []) ++
      readItems rest
  | .text .. :: rest => readItems rest
  | .markup .. :: rest => readItems rest

/-- What is read of the lists among some nodes. -/
def readLists : List Node → List Node
  | [] => []
  | .element name _ children :: rest =>
    (if name = "ul" ∨ name = "ol" then readItems children else []) ++ readLists rest
  | .text .. :: rest => readLists rest
  | .markup .. :: rest => readLists rest

end

/-- The elements that are paragraphs whatever stands in them. -/
def paragraphNames : List Text := ["h1", "h2", "h3", "h4", "h5", "h6", "li", "blockquote", "p"]

/-- A block whose content is one paragraph. -/
def isParagraph (node : Node) : Bool :=
  node.isOneOf paragraphNames || !node.children.any fun child => child.isElement && !isInline child

/-- The first row that has a property comes first, and all others follow in order. -/
def headerFirst {α : Type} (p : α → Bool) (l : List α) : List α := (l.find? p).toList ++ l.eraseP p

mutual

/-- What is read of a block. -/
def readBlock (inHead : Bool) (node : Node) : List Node :=
  match node with
  | .text .. => []
  | .markup .. => []
  | .element name attributes children =>
    let element := Node.element name attributes children
    if element.isEquation || name = "pre" then [element]
    else if isList element then readItems children
    else if name = "table" then (headerFirst (·.1) (readRows false inHead children)).flatMap (·.2)
    else if name = "hr" then []
    else if isParagraph element then readInlines children
    else readFlow inHead children

/-- What is read of nodes that are blocks or stand in paragraphs. -/
def readFlow (inHead : Bool) : List Node → List Node
  | [] => []
  | node :: rest => (if isInline node then readInline node else readBlock inHead node) ++ readFlow inHead rest

/-- The rows of a table that a node gives: whether a row is in the head, and what is read of it. -/
def readRow (inHead : Bool) (node : Node) : List (Bool × List Node) :=
  match node with
  | .text .. => []
  | .markup .. => []
  | .element name _ children =>
    if name = "table" then []
    else if name = "tr" then (inHead, readCells inHead children) :: readRows true inHead children
    else readRows false (inHead || name = "thead") children

/-- The rows of a table that nodes give; beside the cells of a row, if the nodes are those inside a row. -/
def readRows (inRow inHead : Bool) : List Node → List (Bool × List Node)
  | [] => []
  | node :: rest => (if inRow && isCell node then [] else readRow inHead node) ++ readRows inRow inHead rest

/-- What is read of the cells of a row. -/
def readCells (inHead : Bool) : List Node → List Node
  | [] => []
  | .element name _ children :: rest =>
    (if name = "th" ∨ name = "td" then readFlow inHead children else []) ++ readCells inHead rest
  | .text .. :: rest => readCells inHead rest
  | .markup .. :: rest => readCells inHead rest

end

/-- What is read of a sequence of nodes. -/
def reading (nodes : List Node) : List Node := readFlow false nodes

/-! ### Rows in cells -/

mutual

/-- A row is found inside a node, outside of the tables in it. -/
def holdsRow (node : Node) : Bool :=
  match node with
  | .text .. => false
  | .markup .. => false
  | .element name _ children => name ≠ "table" && (name = "tr" || holdRow children)

/-- A row is found inside some nodes, outside of the tables in them. -/
def holdRow : List Node → Bool
  | [] => false
  | node :: rest => holdsRow node || holdRow rest

end

/-- No row stands in a cell of another row of the same table. -/
def CellsApart (nodes : List Node) : Prop :=
  ∀ row ∈ Node.subtrees nodes, row.isNamed "tr" = true → ∀ cell ∈ row.children, isCell cell = true → holdsRow cell = false

/-- In no table a row stands in a cell of another row. -/
def RowsApart (nodes : List Node) : Prop :=
  ∀ table ∈ Node.subtrees nodes, table.isNamed "table" = true → CellsApart table.children

instance (nodes : List Node) : Decidable (CellsApart nodes) :=
  inferInstanceAs (Decidable (∀ row ∈ Node.subtrees nodes, _))

instance (nodes : List Node) : Decidable (RowsApart nodes) :=
  inferInstanceAs (Decidable (∀ table ∈ Node.subtrees nodes, _))

/-! ### What is read, as pieces -/

/-- A piece without its look. -/
def Inline.bare : Inline → Inline
  | .text content _ broken => .text content .plain broken
  | .equation node => .equation node

/-- A node that is read, as pieces without their looks. -/
def rendering (node : Node) : List Inline :=
  match node with
  | .text _ content => if content.normalize.isEmpty then [] else [.text content.normalize .plain false]
  | .markup .. => []
  | .element name attributes children =>
    let element := Node.element name attributes children
    if element.isEquation then [.equation element]
    else if name = "br" then [.text [] .plain true]
    else if name = "pre" then (codePieces (codeLines element.textContent)).map Inline.bare
    else []

/-- The pieces are the nodes one by one, in order; nodes that do not show may be left out. -/
inductive Renders : List Node → List Inline → Prop where
  | nil : Renders [] []
  | each {node : Node} {nodes : List Node} {pieces more : List Inline} :
      pieces.map Inline.bare = rendering node → Renders nodes more → Renders (node :: nodes) (pieces ++ more)
  | blank {node : Node} {nodes : List Node} {more : List Inline} :
      shows node = false → Renders nodes more → Renders (node :: nodes) more

theorem Renders.append {nodes nodes' : List Node} {pieces pieces' : List Inline} (h : Renders nodes pieces)
    (h' : Renders nodes' pieces') : Renders (nodes ++ nodes') (pieces ++ pieces') := by
  induction h with
  | nil => exact h'
  | each hpieces _ ih =>
    rw [List.append_assoc]
    exact .each hpieces ih
  | blank hblank _ ih => exact .blank hblank ih

/-- The pieces are those of some of the nodes. -/
theorem Renders.exists_sublist {nodes : List Node} {pieces : List Inline} (h : Renders nodes pieces) :
    ∃ sources : List Node, sources.Sublist nodes ∧ pieces.map Inline.bare = sources.flatMap rendering := by
  induction h with
  | nil => exact ⟨[], .refl _, rfl⟩
  | @each node nodes pieces more hpieces _ ih =>
    obtain ⟨sources, hsources, hmore⟩ := ih
    exact ⟨node :: sources, hsources.cons_cons node, by rw [List.map_append, hpieces, hmore, List.flatMap_cons]⟩
  | @blank node nodes more _ _ ih =>
    obtain ⟨sources, hsources, hmore⟩ := ih
    exact ⟨sources, hsources.cons node, hmore⟩

theorem Renders.single {node : Node} {pieces : List Inline} (h : pieces.map Inline.bare = rendering node) :
    Renders [node] pieces := by
  have heach := Renders.each h .nil
  rwa [List.append_nil] at heach

/-! ### Paragraphs -/

mutual

theorem renders_inline (look : Look) : ∀ node, Renders (readInline node) (inlines look node)
  | .text kind content => by
    refine .single ?_
    rw [inlines, rendering]
    split <;> rfl
  | .markup .. => .nil
  | .element name attributes children => by
    rw [readInline, inlines]
    split_ifs with hequation hhtml hbreak
    · refine .single ?_
      rw [rendering, if_pos hequation]
      rfl
    · exact .nil
    · refine .single ?_
      rw [rendering, if_neg hequation, if_pos hbreak]
      rfl
    · exact renders_inlines (look.inside name) children

theorem renders_inlines (look : Look) : ∀ nodes, Renders (readInlines nodes) (inlinesOf look nodes)
  | [] => .nil
  | node :: rest => by
    rw [readInlines, inlinesOf]
    exact (renders_inline look node).append (renders_inlines look rest)

end

/-- Nodes that do not show give no paragraph. -/
theorem renders_hidden {nodes : List Node} (h : nodes.any shows = false) : Renders (readInlines nodes) [] := by
  induction nodes with
  | nil => exact .nil
  | cons node rest ih =>
    rw [List.any_cons, Bool.or_eq_false_iff] at h
    cases node with
    | text kind content => exact .blank h.1 (ih h.2)
    | markup => cases h.1
    | element => cases h.1

theorem renders_shared (bold : Bool) (nodes : List Node) : Renders (readInlines nodes) (contentOfBlocks (shared bold nodes)) := by
  rw [shared]
  split
  · simpa [contentOfBlocks, Block.content, Block.ofContent] using renders_inlines ⟨bold, false, false⟩ nodes
  · next h => exact renders_hidden (Bool.eq_false_iff.2 h)

/-! ### Lists -/

mutual

theorem renders_items (ordered : Bool) (depth : Nat) :
    ∀ nodes, Renders (readItems nodes) (contentOfBlocks (items ordered depth nodes))
  | [] => by
    rw [readItems, items, contentOfBlocks]
    exact .nil
  | .element name _ children :: rest => by
    rw [readItems, items, contentOfBlocks_append]
    refine Renders.append ?_ (renders_items ordered depth rest)
    split
    · exact (renders_inlines .plain _).append (renders_lists (depth + 1) children)
    · exact .nil
  | .text .. :: rest => by
    rw [readItems, items]
    exact renders_items ordered depth rest
  | .markup .. :: rest => by
    rw [readItems, items]
    exact renders_items ordered depth rest

theorem renders_lists (depth : Nat) : ∀ nodes, Renders (readLists nodes) (contentOfBlocks (lists depth nodes))
  | [] => by
    rw [readLists, lists, contentOfBlocks]
    exact .nil
  | .element name _ children :: rest => by
    rw [readLists, lists, contentOfBlocks_append]
    refine Renders.append ?_ (renders_lists depth rest)
    by_cases hul : name = "ul"
    · rw [if_pos (.inl hul), if_pos hul]
      exact renders_items false depth children
    · by_cases hol : name = "ol"
      · rw [if_pos (.inr hol), if_neg hul, if_pos hol]
        exact renders_items true depth children
      · rw [if_neg (not_or.2 ⟨hul, hol⟩), if_neg hul, if_neg hol]
        exact .nil
  | .text .. :: rest => by
    rw [readLists, lists]
    exact renders_lists depth rest
  | .markup .. :: rest => by
    rw [readLists, lists]
    exact renders_lists depth rest

end

/-! ### Rows -/

theorem headerFirst_perm {α : Type} (p : α → Bool) (l : List α) : (headerFirst p l).Perm l := by
  induction l with
  | nil => exact .refl _
  | cons a l ih =>
    by_cases h : p a
    · simp [headerFirst, h]
    · rw [headerFirst, List.find?_cons_of_neg h, List.eraseP_cons_of_neg h]
      exact List.perm_middle.trans (ih.cons a)

theorem forall₂_headerFirst {α β : Type} {R : α → β → Prop} {p : α → Bool} {q : β → Bool} (hpq : ∀ a b, R a b → p a = q b)
    {l : List α} {l' : List β} (h : List.Forall₂ R l l') : List.Forall₂ R (headerFirst p l) (headerFirst q l') := by
  refine List.rel_append ?_ ?_
  · induction h with
    | nil => exact .nil
    | @cons a b l l' hab _ ih =>
      by_cases hp : p a
      · simpa [List.find?_cons_of_pos hp, List.find?_cons_of_pos ((hpq a b hab).symm.trans hp)] using hab
      · rwa [List.find?_cons_of_neg hp, List.find?_cons_of_neg fun hq => hp ((hpq a b hab).trans hq)]
  · induction h with
    | nil => exact .nil
    | @cons a b l l' hab hrest ih =>
      by_cases hp : p a
      · rwa [List.eraseP_cons_of_pos hp, List.eraseP_cons_of_pos ((hpq a b hab).symm.trans hp)]
      · rw [List.eraseP_cons_of_neg hp, List.eraseP_cons_of_neg fun hq => hp ((hpq a b hab).trans hq)]
        exact .cons hab ih

/-- The pieces of a row, in bold or not. -/
def Row.content (bold : Bool) (row : Row) : List Inline := row.cells.flatMap fun cell => contentOfBlocks (cell bold)

theorem contentOfCells_append {α : Type} (cells more : List (List (Block α))) :
    contentOfCells (cells ++ more) = contentOfCells cells ++ contentOfCells more := by
  induction cells with
  | nil => rfl
  | cons cell cells ih => rw [List.cons_append, contentOfCells, contentOfCells, ih, List.append_assoc]

theorem contentOfCells_fill (columns : Nat) (bold : Bool) (row : Row) :
    contentOfCells (row.fill columns bold) = row.content bold := by
  have hblank : ∀ n, contentOfCells (List.replicate n ([] : List (Block Inline))) = [] := by
    intro n
    induction n with
    | zero => rfl
    | succ n ih => rw [List.replicate_succ, contentOfCells, ih]; rfl
  have hcells : ∀ cells : List (Bool → List (Block Inline)),
      contentOfCells (cells.map (· bold)) = cells.flatMap fun cell => contentOfBlocks (cell bold) := by
    intro cells
    induction cells with
    | nil => rfl
    | cons cell cells ih => rw [List.map_cons, contentOfCells, ih, List.flatMap_cons]
  rw [Row.fill, contentOfCells_append, hblank, List.append_nil, hcells, Row.content]

theorem contentOfRows_fill (columns : Nat) (rows : List Row) :
    contentOfRows (rows.map (·.fill columns false)) = rows.flatMap (·.content false) := by
  induction rows with
  | nil => rfl
  | cons row rows ih => rw [List.map_cons, contentOfRows, contentOfCells_fill, ih, List.flatMap_cons]

/-- The header of a table, and the rows that come behind it. -/
theorem headerFirst_inHead (rows : List Row) :
    headerFirst (·.inHead) rows = rows[headerIndex rows]?.toList ++ rows.eraseIdx (headerIndex rows) := by
  rw [headerFirst, List.find?_eq_bind_findIdx?_getElem?, List.eraseP_eq_eraseIdx, headerIndex]
  cases rows.findIdx? (·.inHead) with
  | none => cases rows <;> rfl
  | some i => rfl

/-- The table of some rows: the header in bold, and the other rows behind it. -/
theorem tableOf_eq_headerFirst (rows : List Row) :
    let columns := max 1 ((rows.map (·.cells.length)).foldl max 0)
    tableOf rows = match headerFirst (·.inHead) rows with
      | [] => []
      | header :: others => [.table (header.fill columns true :: others.map (·.fill columns false))] := by
  intro columns
  rw [tableOf, headerFirst_inHead]
  cases hheader : rows[headerIndex rows]? with
  | none =>
    have hlength : rows.length ≤ headerIndex rows := List.getElem?_eq_none_iff.1 hheader
    have hempty : rows = [] := by
      rw [headerIndex] at hlength
      cases hfound : rows.findIdx? (·.inHead) with
      | none => exact List.length_eq_zero_iff.1 (by simpa [hfound] using hlength)
      | some i =>
        have hi : i < rows.length := (List.findIdx?_eq_some_iff_findIdx_eq.1 hfound).1
        rw [hfound, Option.getD_some] at hlength
        omega
    subst hempty
    rfl
  | some header => rfl

/-- The pieces of a table: those of the header in bold, and those of the other rows. -/
theorem contentOfBlocks_tableOf (rows : List Row) : contentOfBlocks (tableOf rows) = match headerFirst (·.inHead) rows with
    | [] => []
    | header :: others => header.content true ++ others.flatMap (·.content false) := by
  rw [tableOf_eq_headerFirst]
  cases headerFirst (·.inHead) rows with
  | nil => rfl
  | cons header others => simp [contentOfBlocks, Block.content, contentOfRows, contentOfCells_fill, contentOfRows_fill]

/-- A row that is read, and the row of the outline. -/
def RendersRow (read : Bool × List Node) (row : Row) : Prop := read.1 = row.inHead ∧ ∀ bold, Renders read.2 (row.content bold)

theorem renders_rows {read : List (Bool × List Node)} {rows : List Row} (h : List.Forall₂ RendersRow read rows) (bold : Bool) :
    Renders (read.flatMap (·.2)) (rows.flatMap (·.content bold)) := by
  induction h with
  | nil => exact .nil
  | cons hrow _ ih => exact (hrow.2 bold).append ih

theorem renders_tableOf {read : List (Bool × List Node)} {rows : List Row} (h : List.Forall₂ RendersRow read rows) :
    Renders ((headerFirst (·.1) read).flatMap (·.2)) (contentOfBlocks (tableOf rows)) := by
  have hordered := forall₂_headerFirst (p := (·.1)) (q := (·.inHead)) (fun _ _ hrow => hrow.1) h
  rw [contentOfBlocks_tableOf]
  generalize headerFirst (·.1) read = ordered, headerFirst (·.inHead) rows = ordered' at hordered ⊢
  cases hordered with
  | nil => exact .nil
  | cons hheader hothers => exact (hheader.2 true).append (renders_rows hothers false)

/-! ### Pages without rows in cells -/

mutual

theorem rows_eq_nil (inHead : Bool) : ∀ {node : Node}, holdsRow node = false → rows inHead node = []
  | .text .., _ => rfl
  | .markup .., _ => rfl
  | .element name _ children, h => by
    rw [holdsRow] at h
    rw [rows]
    by_cases htable : name = "table"
    · exact if_pos htable
    · simp only [htable, ne_eq, not_false_eq_true, decide_true, Bool.true_and, Bool.or_eq_false_iff,
        decide_eq_false_iff_not] at h
      rw [if_neg htable, if_neg h.1]
      exact rowsOf_eq_nil _ h.2

theorem rowsOf_eq_nil (inHead : Bool) : ∀ {nodes : List Node}, holdRow nodes = false → rowsOf inHead nodes = []
  | [], _ => rfl
  | node :: rest, h => by
    rw [holdRow, Bool.or_eq_false_iff] at h
    rw [rowsOf, rows_eq_nil inHead h.1, rowsOf_eq_nil inHead h.2, List.append_nil]

end

theorem mem_subtree (node : Node) : node ∈ Node.subtree node := by
  cases node <;> simp [Node.subtree]

theorem subtrees_cons (node : Node) (rest : List Node) : Node.subtrees (node :: rest) = Node.subtree node ++ Node.subtrees rest := rfl

theorem subtree_element (name : Text) (attributes : List (Text × Text)) (children : List Node) :
    Node.subtree (.element name attributes children) = .element name attributes children :: Node.subtrees children := rfl

theorem cellsApart_cons {node : Node} {rest : List Node} : CellsApart (node :: rest) ↔ CellsApart [node] ∧ CellsApart rest := by
  simp only [CellsApart, Node.subtrees, List.append_nil, List.forall_mem_append]

theorem rowsApart_cons {node : Node} {rest : List Node} : RowsApart (node :: rest) ↔ RowsApart [node] ∧ RowsApart rest := by
  simp only [RowsApart, Node.subtrees, List.append_nil, List.forall_mem_append]

theorem CellsApart.children {name : Text} {attributes : List (Text × Text)} {children : List Node}
    (h : CellsApart [.element name attributes children]) : CellsApart children := by
  intro row hrow
  exact h row (by simp [Node.subtrees, Node.subtree, hrow])

theorem RowsApart.children {name : Text} {attributes : List (Text × Text)} {children : List Node}
    (h : RowsApart [.element name attributes children]) : RowsApart children := by
  intro table htable
  exact h table (by simp [Node.subtrees, Node.subtree, htable])

/-- The cells of a row hold no row. -/
theorem CellsApart.cells {attributes : List (Text × Text)} {children : List Node}
    (h : CellsApart [.element "tr" attributes children]) : ∀ cell ∈ children, isCell cell = true → holdsRow cell = false :=
  h (.element "tr" attributes children) (by simp [Node.subtrees, Node.subtree]) (by simp [Node.isNamed, Node.name?])

/-! ### Blocks -/

theorem isOneOf_element {name : Text} {a : List (Text × Text)} {c : List Node} {names : List Text} :
    (Node.element name a c).isOneOf names = true ↔ name ∈ names := by
  simp only [Node.isOneOf, Node.isNamed, Node.name?, Option.any_some, List.any_eq_true, beq_iff_eq]
  exact ⟨fun ⟨_, hmem, heq⟩ => heq ▸ hmem, fun h => ⟨name, h, rfl⟩⟩

theorem isList_element {name : Text} {attributes : List (Text × Text)} {children : List Node} :
    isList (.element name attributes children) = true ↔ name ∈ (["ul", "ol"] : List Text) := isOneOf_element

theorem readInlines_append (nodes more : List Node) : readInlines (nodes ++ more) = readInlines nodes ++ readInlines more := by
  induction nodes with
  | nil => rfl
  | cons node nodes ih => rw [List.cons_append, readInlines, readInlines, ih, List.append_assoc]

theorem isSome_headingLevel?_iff {n : Text} {a : List (Text × Text)} {c : List Node} :
    (headingLevel? (.element n a c)).isSome = true ↔ n ∈ (["h1", "h2", "h3", "h4", "h5", "h6"] : List Text) := by
  rw [← isOneOf_element (a := a) (c := c)]
  simp only [headingLevel?, Node.isOneOf, List.any_cons, List.any_nil, Bool.or_false, Bool.or_eq_true]
  split_ifs <;> simp [*]

section Blocks

variable {inHead : Bool} {name : Text} {attributes : List (Text × Text)} {children : List Node}
  (hequation : ¬ (Node.element name attributes children).isEquation = true)

include hequation

/-- A block that is always a paragraph is read as one. -/
theorem readBlock_of_mem (h : name ∈ paragraphNames) :
    readBlock inHead (.element name attributes children) = readInlines children := by
  have hothers : ∀ n ∈ paragraphNames, n ≠ "pre" ∧ n ∉ (["ul", "ol"] : List Text) ∧ n ≠ "table" ∧ n ≠ "hr" := by decide
  obtain ⟨hpre, hlist, htable, hhr⟩ := hothers name h
  have hparagraph : isParagraph (.element name attributes children) = true := by
    rw [isParagraph, isOneOf_element.2 h, Bool.true_or]
  rw [readBlock, if_neg (by simp [hequation, hpre]), if_neg (mt isList_element.1 hlist), if_neg htable, if_neg hhr,
    if_pos hparagraph]

/-- A list is read item by item. -/
theorem readBlock_list (h : name ∈ (["ul", "ol"] : List Text)) :
    readBlock inHead (.element name attributes children) = readItems children := by
  have hpre : ∀ n ∈ (["ul", "ol"] : List Text), n ≠ "pre" := by decide
  rw [readBlock, if_neg (by simp [hequation, hpre name h]), if_pos (isList_element.2 h)]

/-- A table is read row by row, the header first. -/
theorem readBlock_table (h : name = "table") : readBlock inHead (.element name attributes children) =
    (headerFirst (·.1) (readRows false inHead children)).flatMap (·.2) := by
  have hpre : name ≠ "pre" := h ▸ by decide
  have hlist : name ∉ (["ul", "ol"] : List Text) := h ▸ by decide
  rw [readBlock, if_neg (by simp [hequation, hpre]), if_neg (mt isList_element.1 hlist), if_pos h]

/-- Nothing is read of a horizontal rule. -/
theorem readBlock_rule (h : name = "hr") : readBlock inHead (.element name attributes children) = [] := by
  have hothers : name ≠ "pre" ∧ name ∉ (["ul", "ol"] : List Text) ∧ name ≠ "table" := h ▸ by decide
  obtain ⟨hpre, hlist, htable⟩ := hothers
  rw [readBlock, if_neg (by simp [hequation, hpre]), if_neg (mt isList_element.1 hlist), if_neg htable, if_pos h]

/-- Any other block is read as a paragraph if no block stands in it, and child by child otherwise. -/
theorem readBlock_other (hspecial : name ∉ (["pre", "ul", "ol", "table", "hr"] : List Text)) (hname : name ∉ paragraphNames) :
    readBlock inHead (.element name attributes children) =
      if children.any (fun child => child.isElement && !isInline child) then readFlow inHead children
      else readInlines children := by
  simp only [List.mem_cons, List.not_mem_nil, or_false, not_or] at hspecial
  obtain ⟨hpre, hul, hol, htable, hhr⟩ := hspecial
  have hlist : ¬ isList (.element name attributes children) = true := by simp [isList_element, hul, hol]
  have hparagraph : isParagraph (.element name attributes children) =
      !children.any fun child => child.isElement && !isInline child := by
    rw [isParagraph, Bool.eq_false_iff.2 fun h => hname (isOneOf_element.1 h), Bool.false_or]
    rfl
  rw [readBlock, if_neg (by simp [hequation, hpre]), if_neg hlist, if_neg htable, if_neg hhr, hparagraph]
  cases children.any fun child => child.isElement && !isInline child <;> rfl

end Blocks

mutual

/-- The outline of a block is what is read of it, piece by piece. -/
theorem renders_block (place : Place) : ∀ node, RowsApart [node] →
    Renders (readBlock place.inHead node) (contentOfBlocks (block place node))
  | .text .., _ => .nil
  | .markup .., _ => .nil
  | .element name attributes children, h => by
    have hparagraph : ∀ look kind empty, Renders (readInlines children)
        (contentOfBlocks [.paragraph ⟨kind, empty, inlinesOf look children⟩]) := by
      intro look kind empty
      simpa [contentOfBlocks, Block.content] using renders_inlines look children
    rw [block]
    by_cases hequation : (Node.element name attributes children).isEquation = true
    · rw [readBlock, if_pos (by simp [hequation]), if_pos hequation]
      refine .single ?_
      rw [rendering, if_pos hequation]
      rfl
    rw [if_neg hequation]
    have hheading := isSome_headingLevel?_iff (n := name) (a := attributes) (c := children)
    cases hlevel : headingLevel? (.element name attributes children) with
    | some level =>
      have hname : ∀ n ∈ (["h1", "h2", "h3", "h4", "h5", "h6"] : List Text), n ∈ paragraphNames := by decide
      rw [readBlock_of_mem hequation (hname name (hheading.1 (by simp [hlevel])))]
      exact hparagraph _ _ _
    | none =>
      have hplain : name ∉ (["h1", "h2", "h3", "h4", "h5", "h6"] : List Text) := fun h => by simpa [hlevel] using hheading.2 h
      dsimp only
      split_ifs with hul hol hli htable hpre hquote hhr hp
      · rw [readBlock_list hequation (by simp [hul])]
        exact renders_items false 1 children
      · rw [readBlock_list hequation (by simp [hol])]
        exact renders_items true 1 children
      · rw [readBlock_of_mem hequation (hli ▸ by decide)]
        exact hparagraph _ _ _
      · rw [readBlock_table hequation htable]
        refine renders_tableOf (rendersRow_rowsOf false place.inHead children h.children ?_ fun hrow => nomatch hrow)
        exact h (.element name attributes children) (by simp [Node.subtrees, Node.subtree])
          (by simp [Node.isNamed, Node.name?, htable])
      · rw [readBlock, if_pos (by simp [hpre])]
        refine .single ?_
        rw [rendering, if_neg hequation, if_neg (hpre ▸ by decide), if_pos hpre]
        simp [contentOfBlocks, Block.content, Block.ofContent]
      · rw [readBlock_of_mem hequation (hquote ▸ by decide)]
        exact hparagraph _ _ _
      · rw [readBlock_rule hequation hhr]
        exact .nil
      · by_cases hname : name ∈ paragraphNames
        · rw [readBlock_of_mem hequation hname]
          exact hparagraph _ _ _
        · have hnone : children.any (fun child => child.isElement && !isInline child) = false := by
            have hpar : name ≠ "p" := fun heq => hname (heq ▸ by decide)
            simpa [hpar] using hp
          rw [readBlock_other hequation (by simp [hul, hol, htable, hpre, hhr]) hname, hnone]
          exact hparagraph _ _ _
      · have hname : name ∉ paragraphNames := by
          rw [Bool.or_eq_true, not_or] at hp
          have hpar : name ≠ "p" := fun heq => hp.1 (decide_eq_true heq)
          simp only [List.mem_cons, List.not_mem_nil, or_false, not_or] at hplain
          simp [paragraphNames, hplain, hli, hquote, hpar]
        rw [Bool.or_eq_true, not_or] at hp
        have hsome : children.any (fun child => child.isElement && !isInline child) = true := by simpa using hp.2
        rw [readBlock_other hequation (by simp [hul, hol, htable, hpre, hhr]) hname, if_pos hsome]
        exact renders_flow place children [] h.children

theorem renders_flow (place : Place) : ∀ (nodes pending : List Node), RowsApart nodes →
    Renders (readInlines pending ++ readFlow place.inHead nodes) (contentOfBlocks (blocksFrom place pending nodes))
  | [], pending, _ => by
    rw [readFlow, blocksFrom, List.append_nil]
    exact renders_shared place.bold pending
  | node :: rest, pending, h => by
    obtain ⟨hnode, hrest⟩ := rowsApart_cons.1 h
    rw [readFlow, blocksFrom]
    by_cases hinline : isInline node = true
    · have hlater := renders_flow place rest (pending ++ [node]) hrest
      rw [readInlines_append, List.append_assoc] at hlater
      rw [if_pos hinline, if_pos hinline]
      simpa [readInlines] using hlater
    · rw [if_neg hinline, if_neg hinline, contentOfBlocks_append, contentOfBlocks_append, ← List.append_assoc]
      exact ((renders_shared place.bold pending).append (renders_block place node hnode)).append
        (renders_flow place rest [] hrest)

theorem rendersRow_rows (inHead : Bool) : ∀ node, RowsApart [node] → CellsApart [node] →
    List.Forall₂ RendersRow (readRow inHead node) (rows inHead node)
  | .text .., _, _ => .nil
  | .markup .., _, _ => .nil
  | .element name attributes children, h, hcells => by
    rw [readRow, rows]
    split_ifs with htable hrow
    · exact .nil
    · subst hrow
      refine .cons ⟨rfl, fun bold => ?_⟩ ?_
      · exact renders_cells inHead bold children h.children
      · exact rendersRow_rowsOf true inHead children h.children hcells.children fun _ => hcells.cells
    · exact rendersRow_rowsOf false _ children h.children hcells.children fun hrow => nomatch hrow

theorem rendersRow_rowsOf (inRow inHead : Bool) : ∀ nodes, RowsApart nodes → CellsApart nodes →
    (inRow = true → ∀ cell ∈ nodes, isCell cell = true → holdsRow cell = false) →
    List.Forall₂ RendersRow (readRows inRow inHead nodes) (rowsOf inHead nodes)
  | [], _, _, _ => .nil
  | node :: rest, h, hcells, hfree => by
    obtain ⟨hnode, hrest⟩ := rowsApart_cons.1 h
    obtain ⟨hnodeCells, hrestCells⟩ := cellsApart_cons.1 hcells
    have hlater := rendersRow_rowsOf inRow inHead rest hrest hrestCells fun hrow cell hcell =>
      hfree hrow cell (List.mem_cons_of_mem _ hcell)
    rw [readRows, rowsOf]
    refine List.rel_append ?_ hlater
    split
    · next hcell =>
      rw [Bool.and_eq_true] at hcell
      rw [rows_eq_nil inHead (hfree hcell.1 node List.mem_cons_self hcell.2)]
      exact .nil
    · exact rendersRow_rows inHead node hnode hnodeCells

theorem renders_cells (inHead bold : Bool) : ∀ nodes, RowsApart nodes →
    Renders (readCells inHead nodes) ((cells inHead nodes).flatMap fun cell => contentOfBlocks (cell bold))
  | [], _ => .nil
  | .element name attributes children :: rest, h => by
    obtain ⟨hnode, hrest⟩ := rowsApart_cons.1 h
    rw [readCells, cells, List.flatMap_append]
    refine Renders.append ?_ (renders_cells inHead bold rest hrest)
    split
    · simpa [readInlines] using renders_flow ⟨bold, inHead⟩ children [] hnode.children
    · exact .nil
  | .text .. :: rest, h => by
    rw [readCells, cells]
    exact renders_cells inHead bold rest (rowsApart_cons.1 h).2
  | .markup .. :: rest, h => by
    rw [readCells, cells]
    exact renders_cells inHead bold rest (rowsApart_cons.1 h).2

end

/-- The outline of a page is what is read of it, piece by piece. -/
theorem renders_blocks {nodes : List Node} (h : RowsApart nodes) : Renders (reading nodes) (contentOfBlocks (blocks nodes)) := by
  have hflow := renders_flow ⟨false, false⟩ nodes [] h
  rwa [readInlines, List.nil_append] at hflow

end EquationExport.Document
