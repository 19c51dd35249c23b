import EquationExport.Proofs.Document.Reading

/-!
# Where the pieces of an outline come from

Whatever the walk over a page does with tables and lists, it makes nothing up: every text of the outline is the text of a
node in running form or a line of a preformatted element, and every equation is a node of the page. Unlike the order of
reading, this needs nothing of the page, and holds as well if a row stands in a cell of another row.
-/

namespace EquationExport.Document

open EquationExport.Html (Node)

variable {source : Node → Prop}

/-! ### Nodes to draw from -/

/-- All of some nodes and of what is inside them may be drawn from. -/
def Within (source : Node → Prop) (nodes : List Node) : Prop := ∀ node ∈ Node.subtrees nodes, source node

theorem within_cons {node : Node} {rest : List Node} : Within source (node :: rest) ↔ Within source [node] ∧ Within source rest := by
  simp only [Within, Node.subtrees, List.append_nil, List.forall_mem_append]

theorem within_element {name : Text} {attributes : List (Text × Text)} {children : List Node} :
    Within source [.element name attributes children] ↔ source (.element name attributes children) ∧ Within source children := by
  simp only [Within, Node.subtrees, Node.subtree, List.append_nil, List.forall_mem_cons]

namespace Within

variable {nodes more : List Node}

theorem nil : Within source [] := fun _ h => absurd h List.not_mem_nil

theorem self {node : Node} (h : Within source [node]) : source node := h node (by simp [Node.subtrees, mem_subtree])

theorem children {name : Text} {attributes : List (Text × Text)} {children : List Node}
    (h : Within source [.element name attributes children]) : Within source children := (within_element.1 h).2

theorem append (h : Within source nodes) (hmore : Within source more) : Within source (nodes ++ more) := by
  induction nodes with
  | nil => exact hmore
  | cons node rest ih =>
    obtain ⟨hnode, hrest⟩ := within_cons.1 h
    exact within_cons.2 ⟨hnode, ih hrest⟩

theorem filter (h : Within source nodes) (p : Node → Bool) : Within source (nodes.filter p) := by
  induction nodes with
  | nil => exact h
  | cons node rest ih =>
    obtain ⟨hnode, hrest⟩ := within_cons.1 h
    by_cases hp : p node = true
    · rw [List.filter_cons_of_pos hp]
      exact within_cons.2 ⟨hnode, ih hrest⟩
    · rw [List.filter_cons_of_neg hp]
      exact ih hrest

end Within

/-! ### Pieces that are drawn -/

/-- The piece is made of nodes that may be drawn from, or is an empty text. -/
inductive Inline.ComesFrom (source : Node → Prop) : Inline → Prop where
  | blank (look : Look) (broken : Bool) : ComesFrom source (.text [] look broken)
  /-- Running text. -/
  | running {kind : Html.TextKind} {given : Text} (h : source (.text kind given)) (look : Look) (broken : Bool) :
      ComesFrom source (.text given.normalize look broken)
  /-- A line of preformatted text. -/
  | code {node : Node} {line : Text} (h : source node) (hline : line ∈ codeLines node.textContent) (look : Look)
      (broken : Bool) : ComesFrom source (.text line look broken)
  | equation {node : Node} (h : source node) : ComesFrom source (.equation node)

/-- All of some pieces are drawn. -/
def Drawn (source : Node → Prop) (pieces : List Inline) : Prop := ∀ p ∈ pieces, p.ComesFrom source

namespace Drawn

variable {pieces more : List Inline}

theorem nil : Drawn source [] := fun _ h => absurd h List.not_mem_nil

theorem single {p : Inline} (h : p.ComesFrom source) : Drawn source [p] := List.forall_mem_singleton.2 h

theorem append (h : Drawn source pieces) (hmore : Drawn source more) : Drawn source (pieces ++ more) :=
  List.forall_mem_append.2 ⟨h, hmore⟩

theorem paragraph (h : Drawn source pieces) (kind : ParagraphKind) (whenEmpty : WhenEmpty) :
    Drawn source (contentOfBlocks [.paragraph ⟨kind, whenEmpty, pieces⟩]) := by
  rw [contentOfBlocks, contentOfBlocks, List.append_nil, Block.content]
  exact h

end Drawn

/-! ### The walk -/

mutual

theorem drawn_inline (look : Look) : ∀ node, Within source [node] → Drawn source (inlines look node)
  | .text kind content, h => by
    rw [inlines]
    split
    · exact .nil
    · exact .single (.running h.self look false)
  | .markup .., _ => .nil
  | .element name attributes children, h => by
    rw [inlines]
    split_ifs
    · exact .single (.equation h.self)
    · exact .nil
    · exact .single (.blank _ _)
    · exact drawn_inlines (look.inside name) children h.children

theorem drawn_inlines (look : Look) : ∀ nodes, Within source nodes → Drawn source (inlinesOf look nodes)
  | [], _ => .nil
  | node :: rest, h => by
    obtain ⟨hnode, hrest⟩ := within_cons.1 h
    rw [inlinesOf]
    exact (drawn_inline look node hnode).append (drawn_inlines look rest hrest)

end

theorem drawn_shared (bold : Bool) {nodes : List Node} (h : Within source nodes) :
    Drawn source (contentOfBlocks (shared bold nodes)) := by
  rw [shared]
  split
  · exact (drawn_inlines _ nodes h).paragraph _ _
  · exact .nil

theorem drawn_codePieces {node : Node} (h : source node) {lines : List Text} (hlines : lines ⊆ codeLines node.textContent) :
    Drawn source (codePieces lines) := by
  induction lines with
  | nil => exact .nil
  | cons line rest ih =>
    have hline := hlines List.mem_cons_self
    have hrest := ih fun _ hmem => hlines (List.mem_cons_of_mem _ hmem)
    cases rest with
    | nil => exact .single (.code h hline _ _)
    | cons next rest =>
      rw [codePieces]
      exact (Drawn.single (.code h hline _ _)).append hrest
      exact List.cons_ne_nil _ _

mutual

theorem drawn_items (ordered : Bool) (depth : Nat) :
    ∀ nodes, Within source nodes → Drawn source (contentOfBlocks (items ordered depth nodes))
  | [], _ => by
    rw [items, contentOfBlocks]
    exact .nil
  | .element name _ children :: rest, h => by
    obtain ⟨hnode, hrest⟩ := within_cons.1 h
    rw [items, contentOfBlocks_append]
    refine Drawn.append ?_ (drawn_items ordered depth rest hrest)
    split
    · rw [contentOfBlocks, Block.content]
      exact (drawn_inlines .plain _ (hnode.children.filter _)).append (drawn_lists (depth + 1) children hnode.children)
    · exact .nil
  | .text .. :: rest, h => by
    rw [items]
    exact drawn_items ordered depth rest (within_cons.1 h).2
  | .markup .. :: rest, h => by
    rw [items]
    exact drawn_items ordered depth rest (within_cons.1 h).2

theorem drawn_lists (depth : Nat) : ∀ nodes, Within source nodes → Drawn source (contentOfBlocks (lists depth nodes))
  | [], _ => by
    rw [lists, contentOfBlocks]
    exact .nil
  | .element name _ children :: rest, h => by
    obtain ⟨hnode, hrest⟩ := within_cons.1 h
    rw [lists, contentOfBlocks_append]
    refine Drawn.append ?_ (drawn_lists depth rest hrest)
    split_ifs
    · exact drawn_items false depth children hnode.children
    · exact drawn_items true depth children hnode.children
    · exact .nil
  | .text .. :: rest, h => by
    rw [lists]
    exact drawn_lists depth rest (within_cons.1 h).2
  | .markup .. :: rest, h => by
    rw [lists]
    exact drawn_lists depth rest (within_cons.1 h).2

end

/-- A table holds what its rows hold, in whatever order. -/
theorem drawn_tableOf {rows : List Row} (h : ∀ row ∈ rows, ∀ bold, Drawn source (row.content bold)) :
    Drawn source (contentOfBlocks (tableOf rows)) := by
  rw [contentOfBlocks_tableOf]
  have hordered : ∀ row ∈ headerFirst (·.inHead) rows, ∀ bold, Drawn source (row.content bold) :=
    fun row hrow => h row ((headerFirst_perm _ rows).mem_iff.1 hrow)
  cases hrows : headerFirst (·.inHead) rows with
  | nil => exact .nil
  | cons header others =>
    rw [hrows] at hordered
    refine (hordered header List.mem_cons_self true).append fun p hp => ?_
    obtain ⟨row, hrow, hp⟩ := List.mem_flatMap.1 hp
    exact hordered row (List.mem_cons_of_mem _ hrow) false p hp

mutual

theorem drawn_block (place : Place) : ∀ node, Within source [node] → Drawn source (contentOfBlocks (block place node))
  | .text .., _ => .nil
  | .markup .., _ => .nil
  | .element name attributes children, h => by
    have hparagraph : ∀ look kind empty, Drawn source (contentOfBlocks [.paragraph ⟨kind, empty, inlinesOf look children⟩]) :=
      fun look kind empty => (drawn_inlines look children h.children).paragraph kind empty
    rw [block]
    by_cases hequation : (Node.element name attributes children).isEquation = true
    · rw [if_pos hequation]
      exact (Drawn.single (.equation h.self)).paragraph _ _
    rw [if_neg hequation]
    cases headingLevel? (.element name attributes children) with
    | some level => exact hparagraph _ _ _
    | none =>
      dsimp only
      split_ifs
      · exact drawn_items false 1 children h.children
      · exact drawn_items true 1 children h.children
      · exact hparagraph _ _ _
      · exact drawn_tableOf fun row hrow bold => drawn_rowsOf place.inHead children h.children row hrow bold
      · exact (drawn_codePieces h.self (List.Subset.refl _)).paragraph _ _
      · exact hparagraph _ _ _
      · exact .nil
      · exact hparagraph _ _ _
      · exact drawn_flow place children [] h.children .nil

theorem drawn_flow (place : Place) : ∀ nodes pending : List Node, Within source nodes → Within source pending →
    Drawn source (contentOfBlocks (blocksFrom place pending nodes))
  | [], pending, _, hpending => by
    rw [blocksFrom]
    exact drawn_shared place.bold hpending
  | node :: rest, pending, h, hpending => by
    obtain ⟨hnode, hrest⟩ := within_cons.1 h
    rw [blocksFrom]
    split
    · exact drawn_flow place rest (pending ++ [node]) hrest (hpending.append hnode)
    · rw [contentOfBlocks_append, contentOfBlocks_append]
      exact ((drawn_shared place.bold hpending).append (drawn_block place node hnode)).append
        (drawn_flow place rest [] hrest .nil)

theorem drawn_rows (inHead : Bool) : ∀ node, Within source [node] →
    ∀ row ∈ rows inHead node, ∀ bold, Drawn source (row.content bold)
  | .text .., _ => fun _ h => absurd h List.not_mem_nil
  | .markup .., _ => fun _ h => absurd h List.not_mem_nil
  | .element name attributes children, h => by
    rw [rows]
    split_ifs
    · exact fun _ h => absurd h List.not_mem_nil
    · refine List.forall_mem_cons.2 ⟨fun bold => ?_, drawn_rowsOf inHead children h.children⟩
      exact drawn_cells inHead bold children h.children
    · exact drawn_rowsOf _ children h.children

theorem drawn_rowsOf (inHead : Bool) : ∀ nodes, Within source nodes →
    ∀ row ∈ rowsOf inHead nodes, ∀ bold, Drawn source (row.content bold)
  | [], _ => fun _ h => absurd h List.not_mem_nil
  | node :: rest, h => by
    obtain ⟨hnode, hrest⟩ := within_cons.1 h
    rw [rowsOf]
    exact List.forall_mem_append.2 ⟨drawn_rows inHead node hnode, drawn_rowsOf inHead rest hrest⟩

theorem drawn_cells (inHead bold : Bool) : ∀ nodes, Within source nodes →
    Drawn source ((cells inHead nodes).flatMap fun cell => contentOfBlocks (cell bold))
  | [], _ => .nil
  | .element name attributes children :: rest, h => by
    obtain ⟨hnode, hrest⟩ := within_cons.1 h
    rw [cells, List.flatMap_append]
    refine Drawn.append ?_ (drawn_cells inHead bold rest hrest)
    split
    · rw [List.flatMap_singleton]
      exact drawn_flow ⟨bold, inHead⟩ children [] hnode.children .nil
    · exact .nil
  | .text .. :: rest, h => by
    rw [cells]
    exact drawn_cells inHead bold rest (within_cons.1 h).2
  | .markup .. :: rest, h => by
    rw [cells]
    exact drawn_cells inHead bold rest (within_cons.1 h).2

end

/-- The outline of some nodes is drawn from them and from what is inside them. -/
theorem drawn_blocks (nodes : List Node) : Drawn (· ∈ Node.subtrees nodes) (contentOfBlocks (blocks nodes)) :=
  drawn_flow ⟨false, false⟩ nodes [] (fun _ h => h) .nil

end EquationExport.Document
