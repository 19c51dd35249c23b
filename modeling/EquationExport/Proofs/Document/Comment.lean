import EquationExport.Proofs.Document.Grid

/-!
# Comments

A page is walked in several ways: block by block, piece by piece, and for the items of lists and the rows and cells of
tables. Each way of walking passes over comments. What a comment can change is the text of the MathML around it, which the
converters are asked about, and one thing more: in a walk by blocks it ends the paragraph in front of it, so two inline
nodes with nothing but a comment between them come to stand in two paragraphs. A comment anywhere else
changes nothing in the document.
-/

namespace EquationExport.Document

open EquationExport.Html (Node)

/-! ### Ways of walking -/

/-- A way of walking over nodes that stand beside each other. -/
inductive Walker where
  | blocks
  | pieces
  /-- Over the content of a list. -/
  | items
  /-- Over the content of an item, for what stands in no list inside it. -/
  | entry
  /-- Over the content of an item, for the lists inside it. -/
  | lists
  /-- In search of the rows of a table. -/
  | rows
  /-- Over the content of a row. -/
  | cells
  deriving DecidableEq

/-- The content of an inline element is walked piece by piece, unless it is an equation or hidden. -/
def insideInline (node : Node) : List Walker :=
  if node.isEquation || node.hasClass "katex-html" || node.isNamed "br" then [] else [.pieces]

/-- The ways in which the content of an element is walked when the element is met. -/
def Walker.inside (walker : Walker) (node : Node) : List Walker :=
  match walker with
  | .blocks =>
    if node.isEquation then []
    else if isInline node then insideInline node
    else if isList node then [.items]
    else if node.isNamed "table" then [.rows]
    else if node.isOneOf ["pre", "hr"] then []
    else if isParagraph node then [.pieces]
    else [.blocks]
  | .pieces => insideInline node
  | .items => if node.isNamed "li" then [.entry, .lists] else []
  | .entry => if isList node then [] else insideInline node
  | .lists => if isList node then [.items] else []
  | .rows => if node.isNamed "table" then [] else if node.isNamed "tr" then [.cells, .rows] else [.rows]
  | .cells => if isCell node then [.blocks] else []

/-- An equation that is shown where it is met. -/
def Walker.shows (walker : Walker) (node : Node) : Bool :=
  node.isEquation && match walker with
  | .blocks => true
  | .pieces => true
  | .entry => !isList node
  | _ => false

/-- The place between some nodes is between two inline nodes. -/
def isWithin (front back : List Node) : Bool := front.getLast?.any isInline && back.head?.any isInline

/--
The second nodes are the first ones with a comment among or inside them. In a walk by blocks the comment is not between two
inline nodes. An equation that is shown may have it inside if the equation stays the same in the sense given.
-/
inductive Commented (same : Node → Node → Prop) : List Walker → List Node → List Node → Prop where
  /-- The comment stands among the nodes, perhaps in front or at the end. -/
  | among {walkers : List Walker} (front back : List Node) (comment : Text) :
      (Walker.blocks ∈ walkers → isWithin front back = false) →
      Commented same walkers (front ++ back) (front ++ .markup .comment comment :: back)
  /-- The comment stands inside one of the nodes. -/
  | inside {walkers : List Walker} (front back : List Node) {name : Text} {attributes : List (Text × Text)}
      {children children' : List Node} :
      (∀ walker ∈ walkers, walker.shows (.element name attributes children) = true →
        same (.element name attributes children) (.element name attributes children')) →
      Commented same (walkers.flatMap (·.inside (.element name attributes children))) children children' →
      Commented same walkers (front ++ .element name attributes children :: back)
        (front ++ .element name attributes children' :: back)

variable {same : Node → Node → Prop} {walkers : List Walker} {nodes nodes' : List Node}

/-! ### What a comment does not touch -/

namespace Commented

/-- What is found among all nodes of trees, as far as it is found in no comment and does not change itself. -/
theorem filterMap_subtrees {β : Type} {f : Node → Option β} (hcomment : ∀ comment, f (.markup .comment comment) = none)
    (hf : ∀ {walkers name attributes children children'}, Commented same walkers children children' →
      f (.element name attributes children') = f (.element name attributes children))
    (h : Commented same walkers nodes nodes') : (Node.subtrees nodes').filterMap f = (Node.subtrees nodes).filterMap f := by
  induction h with
  | among front back comment =>
    simp only [subtrees_append, Node.subtrees, Node.subtree, List.filterMap_append, List.filterMap_cons, hcomment,
      List.filterMap_nil, List.nil_append]
  | inside front back _ h ih =>
    simp only [subtrees_append, Node.subtrees, Node.subtree, List.filterMap_append, List.filterMap_cons, hf h, ih]

theorem findSome?_subtrees {β : Type} {f : Node → Option β} (hcomment : ∀ comment, f (.markup .comment comment) = none)
    (hf : ∀ {walkers name attributes children children'}, Commented same walkers children children' →
      f (.element name attributes children') = f (.element name attributes children))
    (h : Commented same walkers nodes nodes') : (Node.subtrees nodes').findSome? f = (Node.subtrees nodes).findSome? f := by
  rw [← List.head?_filterMap, ← List.head?_filterMap, filterMap_subtrees hcomment hf h]

section Element

variable (name : Text) (attributes : List (Text × Text)) {children children' : List Node}
  (h : Commented same walkers children children')

include h

theorem texts_element : (Node.element name attributes children').texts = (Node.element name attributes children).texts :=
  filterMap_subtrees (fun _ => rfl) (fun _ => rfl) h

theorem textContent_element :
    (Node.element name attributes children').textContent = (Node.element name attributes children).textContent := by
  rw [Node.textContent, Node.textContent, h.texts_element]

theorem spacedText_element :
    (Node.element name attributes children').spacedText = (Node.element name attributes children).spacedText := by
  rw [Node.spacedText, Node.spacedText, h.texts_element]

/-- What is told about the first node whose tag has a property. -/
theorem map_find?_descendants {β : Type} {p : Node → Bool} {f : Node → β}
    (hcomment : ∀ comment, p (.markup .comment comment) = false)
    (hp : ∀ name attributes children children',
      p (.element name attributes children') = p (.element name attributes children))
    (hf : ∀ {walkers name attributes children children'}, Commented same walkers children children' →
      f (.element name attributes children') = f (.element name attributes children)) :
    ((Node.element name attributes children').descendants.find? p).map f =
      ((Node.element name attributes children).descendants.find? p).map f := by
  rw [List.find?_eq_findSome?_guard, List.find?_eq_findSome?_guard, List.map_findSome?, List.map_findSome?]
  refine findSome?_subtrees (fun comment => ?_) (fun {_ name attributes children children'} hinner => ?_) h
  · simp [Option.guard, hcomment]
  · simp [Option.guard, hp name attributes children children', hf hinner]

theorem isDisplay_element :
    (Node.element name attributes children').isDisplay = (Node.element name attributes children).isDisplay := by
  have hmath := h.map_find?_descendants name attributes (p := (·.isNamed "math")) (f := (·.attribute? "display"))
    (fun _ => rfl) (fun _ _ _ _ => rfl) (fun _ => rfl)
  have hany := congrArg (Option.any (· == some ("block" : Text))) hmath
  rw [Option.any_map, Option.any_map] at hany
  exact congrArg ((Node.element name attributes children).hasClass "katex-display" || ·) hany

theorem latexNote?_element :
    Node.latexNote? (.element name attributes children') = Node.latexNote? (.element name attributes children) := by
  rw [Node.latexNote?, Node.latexNote?, h.textContent_element]
  rfl

theorem annotatedLatex?_element :
    (Node.element name attributes children').annotatedLatex? = (Node.element name attributes children).annotatedLatex? := by
  have hfound : ∀ nodes : List Node, (nodes.filter (·.isNamed "annotation")).findSome? Node.latexNote? =
      nodes.findSome? fun note => if note.isNamed "annotation" then note.latexNote? else none := by
    intro nodes
    rw [← List.head?_filterMap, List.filterMap_filter, List.head?_filterMap]
  rw [Node.annotatedLatex?, Node.annotatedLatex?, hfound, hfound]
  refine findSome?_subtrees (fun _ => rfl) (fun hinner => ?_) h
  rw [hinner.latexNote?_element]
  rfl

/-- The LaTeX of an equation. -/
theorem latex?_element (maxLength : Int) :
    (Node.element name attributes children').latex? maxLength = (Node.element name attributes children).latex? maxLength := by
  rw [Node.latex?, Node.latex?, h.annotatedLatex?_element, Node.textLatex?, Node.textLatex?, h.textContent_element]
  rfl

/-- What is shown for an equation that cannot be converted. -/
theorem fallbackText_element (maxLength : Int) : (Node.element name attributes children').fallbackText maxLength =
    (Node.element name attributes children).fallbackText maxLength := by
  have hspaced := h.map_find?_descendants name attributes (p := (·.hasClass "katex-mathml")) (f := (·.spacedText))
    (fun _ => rfl) (fun _ _ _ _ => rfl) fun hinner => hinner.spacedText_element _ _
  rw [Node.fallbackText, Node.fallbackText, h.latex?_element]
  cases nonempty? ((Node.element name attributes children).latex? maxLength) with
  | some latex => rfl
  | none =>
    have hown := h.spacedText_element name attributes
    exact (Option.getD_map Node.spacedText _ _).symm.trans
      ((congr (congrArg Option.getD hspaced) hown).trans (Option.getD_map Node.spacedText _ _))

theorem isInline_element : isInline (.element name attributes children') = isInline (.element name attributes children) := by
  rw [Document.isInline, Document.isInline, h.isDisplay_element]
  rfl

end Element

theorem any_isBlock (h : Commented same walkers nodes nodes') :
    nodes'.any (fun child => child.isElement && !isInline child) =
      nodes.any fun child => child.isElement && !isInline child := by
  cases h with
  | among front back comment => simp [Node.isElement]
  | inside front back _ h => simp [Node.isElement, h.isInline_element]

end Commented

/-! ### Outlines -/

/-- A row whose pieces are told by what `g` says about them. -/
def Row.seen {β : Type} (g : Inline → β) (row : Row) : Bool × List (Bool → List (Block β)) :=
  (row.inHead, row.cells.map fun cell bold => mapBlocks g (cell bold))

/-- Over both nodes the walk gives the same, as far as `g` tells pieces apart. -/
def Agrees {β : Type} (g : Inline → β) (walker : Walker) (nodes nodes' : List Node) : Prop :=
  match walker with
  | .blocks => ∀ place, mapBlocks g (blocksFrom place [] nodes') = mapBlocks g (blocksFrom place [] nodes)
  | .pieces => ∀ look, (inlinesOf look nodes').map g = (inlinesOf look nodes).map g
  | .items => ∀ ordered depth, mapBlocks g (items ordered depth nodes') = mapBlocks g (items ordered depth nodes)
  | .entry => ∀ look, (inlinesOf look (nodes'.filter fun child => !isList child)).map g =
      (inlinesOf look (nodes.filter fun child => !isList child)).map g
  | .lists => ∀ depth, mapBlocks g (lists depth nodes') = mapBlocks g (lists depth nodes)
  | .rows => ∀ inHead, (rowsOf inHead nodes').map (Row.seen g) = (rowsOf inHead nodes).map (Row.seen g)
  | .cells => ∀ inHead, (cells inHead nodes').map (fun cell bold => mapBlocks g (cell bold)) =
      (cells inHead nodes).map fun cell bold => mapBlocks g (cell bold)

theorem inlinesOf_append (look : Look) (nodes more : List Node) :
    inlinesOf look (nodes ++ more) = inlinesOf look nodes ++ inlinesOf look more := by
  induction nodes with
  | nil => rfl
  | cons node nodes ih => rw [List.cons_append, inlinesOf, inlinesOf, ih, List.append_assoc]

theorem items_append (ordered : Bool) (depth : Nat) (nodes more : List Node) :
    items ordered depth (nodes ++ more) = items ordered depth nodes ++ items ordered depth more := by
  induction nodes with
  | nil => rw [items]; rfl
  | cons node nodes ih => cases node <;> simp only [List.cons_append, items, ih, List.append_assoc]

theorem lists_append (depth : Nat) (nodes more : List Node) :
    lists depth (nodes ++ more) = lists depth nodes ++ lists depth more := by
  induction nodes with
  | nil => rw [lists]; rfl
  | cons node nodes ih => cases node <;> simp only [List.cons_append, lists, ih, List.append_assoc]

theorem rowsOf_append (inHead : Bool) (nodes more : List Node) :
    rowsOf inHead (nodes ++ more) = rowsOf inHead nodes ++ rowsOf inHead more := by
  induction nodes with
  | nil => rfl
  | cons node nodes ih => rw [List.cons_append, rowsOf, rowsOf, ih, List.append_assoc]

theorem cells_append (inHead : Bool) (nodes more : List Node) :
    cells inHead (nodes ++ more) = cells inHead nodes ++ cells inHead more := by
  rw [cells_eq_map, cells_eq_map, cells_eq_map, List.filter_append, List.map_append]

/-- A comment that is not between two inline nodes ends no paragraph. -/
theorem blocksFrom_comment {front back : List Node} (h : isWithin front back = false) (place : Place) (comment : Text) :
    blocksFrom place [] (front ++ .markup .comment comment :: back) = blocksFrom place [] (front ++ back) := by
  have hnone : shared place.bold [] = [] := rfl
  have hcomment : block place (.markup .comment comment) = [] := rfl
  rw [blocksFrom_append_cons rfl, hcomment, List.append_nil]
  rcases List.eq_nil_or_concat' front with rfl | ⟨front, last, rfl⟩
  · rw [blocksFrom, hnone]
    rfl
  cases back with
  | nil => rw [blocksFrom, hnone, List.append_nil, List.append_nil]
  | cons first back =>
    rw [isWithin, List.getLast?_concat, List.head?_cons, Option.any_some, Option.any_some, Bool.and_eq_false_iff] at h
    rcases h with hlast | hfirst
    · rw [List.append_assoc, List.singleton_append, blocksFrom_append_cons hlast,
        blocksFrom_append_cons hlast, blocksFrom, hnone, List.append_nil]
    · rw [blocksFrom_append_cons hfirst, blocksFrom, hfirst, if_neg Bool.false_ne_true, hnone, List.nil_append,
        List.append_assoc]

section Agreement

variable {β : Type} {g : Inline → β}

/-- Where a comment stands among the nodes, every walk passes over it. -/
theorem agrees_among {walker : Walker} {front back : List Node} (comment : Text)
    (h : walker = .blocks → isWithin front back = false) :
    Agrees g walker (front ++ back) (front ++ .markup .comment comment :: back) := by
  cases walker with
  | blocks => exact fun place => congrArg _ (blocksFrom_comment (h rfl) place comment)
  | pieces => exact fun look => by simp [inlinesOf_append, inlinesOf, inlines]
  | items => exact fun ordered depth => by simp only [items_append, items]
  | entry => exact fun look => by simp [inlinesOf_append, inlinesOf, inlines, isList, Node.isOneOf, Node.isNamed, Node.name?]
  | lists => exact fun depth => by simp only [lists_append, lists]
  | rows => exact fun inHead => by simp [rowsOf_append, rowsOf, rows]
  | cells => exact fun inHead => by simp only [cells_append, cells]

/-! ### Tables -/

/-- A row with all its columns, told by what `g` says about its pieces. -/
def widened {β : Type} (columns : Nat) (bold : Bool) (row : Bool × List (Bool → List (Block β))) : List (List (Block β)) :=
  row.2.map (· bold) ++ List.replicate (columns - row.2.length) []

theorem map_fill (columns : Nat) (bold : Bool) (row : Row) :
    (row.fill columns bold).map (mapBlocks g) = widened columns bold (row.seen g) := by
  simp [Row.fill, widened, Row.seen, mapBlocks, Function.comp_def]

theorem mapBlocks_tableOf (rows : List Row) :
    let seen := rows.map (Row.seen g)
    let columns := max 1 ((seen.map (·.2.length)).foldl max 0)
    mapBlocks g (tableOf rows) = match headerFirst (·.1) seen with
      | [] => []
      | header :: others => [.table (widened columns true header :: others.map (widened columns false))] := by
  intro seen columns
  have hcolumns : max 1 ((rows.map (·.cells.length)).foldl max 0) = columns := by
    simp only [columns, seen, List.map_map, Function.comp_def, Row.seen, List.length_map]
  have hordered : headerFirst (·.1) seen = (headerFirst (·.inHead) rows).map (Row.seen g) := headerFirst_map _ _ _
  rw [tableOf_eq_headerFirst, hcolumns, hordered]
  cases headerFirst (·.inHead) rows with
  | nil => rfl
  | cons header others =>
    simp only [List.map_cons, mapBlocks, Block.map, mapRows_eq_map, map_fill, List.map_map, Function.comp_def]

/-! ### Elements with a comment inside -/

section Element

variable {name : Text} {attributes : List (Text × Text)} {children children' : List Node}
  (h : Commented same walkers children children')

/-- The pieces of an element. -/
theorem map_inlines_element (hequation : (Node.element name attributes children).isEquation = true →
      g (.equation (.element name attributes children')) = g (.equation (.element name attributes children)))
    (hagrees : ∀ walker ∈ insideInline (.element name attributes children), Agrees g walker children children') (look : Look) :
    (inlines look (.element name attributes children')).map g = (inlines look (.element name attributes children)).map g := by
  have hsame : (Node.element name attributes children').isEquation = (Node.element name attributes children).isEquation := rfl
  have hclass : (Node.element name attributes children').hasClass "katex-html" =
      (Node.element name attributes children).hasClass "katex-html" := rfl
  rw [inlines, inlines, hsame, hclass]
  split_ifs with heq hhidden hbreak
  · exact congrArg (fun piece => [piece]) (hequation heq)
  · rfl
  · rfl
  · have hname : (Node.element name attributes children).isNamed "br" = false := by simpa [Node.isNamed, Node.name?] using hbreak
    rw [insideInline, if_neg (by simp [heq, hhidden, hname]), List.forall_mem_singleton] at hagrees
    exact hagrees _

/-- Nodes that share a paragraph with an element. -/
theorem mapBlocks_shared_element (hpieces : ∀ look, (inlines look (.element name attributes children')).map g =
      (inlines look (.element name attributes children)).map g) (bold : Bool) (front back : List Node) :
    mapBlocks g (shared bold (front ++ .element name attributes children' :: back)) =
      mapBlocks g (shared bold (front ++ .element name attributes children :: back)) := by
  have hshows : ∀ children, (front ++ .element name attributes children :: back).any shows = true := by
    intro children
    simp [shows]
  rw [shared, shared, if_pos (hshows children'), if_pos (hshows children)]
  simp [mapBlocks, Block.map, Paragraph.map, Block.ofContent, inlinesOf_append, inlinesOf, hpieces]

/-- A flow with an inline element among the nodes in front that share a paragraph. -/
theorem mapBlocks_pending_element (hpieces : ∀ look, (inlines look (.element name attributes children')).map g =
      (inlines look (.element name attributes children)).map g) (place : Place) (nodes front back : List Node) :
    mapBlocks g (blocksFrom place (front ++ .element name attributes children' :: back) nodes) =
      mapBlocks g (blocksFrom place (front ++ .element name attributes children :: back) nodes) := by
  -- `back` takes up the inline nodes that follow, until a block or the end gives the paragraph.
  induction nodes generalizing back with
  | nil => exact mapBlocks_shared_element hpieces place.bold front back
  | cons node nodes ih =>
    rw [blocksFrom, blocksFrom]
    split_ifs
    · simpa only [List.append_assoc, List.cons_append] using ih (back ++ [node])
    · simp only [mapBlocks_append, mapBlocks_shared_element hpieces]

include h

/-- A flow with an inline element. -/
theorem mapBlocks_flow_element (hinline : isInline (.element name attributes children) = true)
    (hpieces : ∀ look, (inlines look (.element name attributes children')).map g =
      (inlines look (.element name attributes children)).map g) (place : Place) (pending front back : List Node) :
    mapBlocks g (blocksFrom place pending (front ++ .element name attributes children' :: back)) =
      mapBlocks g (blocksFrom place pending (front ++ .element name attributes children :: back)) := by
  induction front generalizing pending with
  | nil =>
    rw [List.nil_append, List.nil_append, blocksFrom, blocksFrom, h.isInline_element, if_pos hinline, if_pos hinline]
    exact mapBlocks_pending_element hpieces place back pending []
  | cons node front ih =>
    rw [List.cons_append, List.cons_append, blocksFrom, blocksFrom]
    split_ifs
    · exact ih _
    · simp only [mapBlocks_append, ih]

/-- The blocks of an element. -/
theorem mapBlocks_block_element (hinline : isInline (.element name attributes children) = false)
    (hequation : (Node.element name attributes children).isEquation = true →
      g (.equation (.element name attributes children')) = g (.equation (.element name attributes children)))
    (hagrees : ∀ walker ∈ Walker.blocks.inside (.element name attributes children), Agrees g walker children children')
    (place : Place) : mapBlocks g (block place (.element name attributes children')) =
      mapBlocks g (block place (.element name attributes children)) := by
  by_cases heq : (Node.element name attributes []).isEquation = true
  · simp only [block, isEquation_element, heq, if_true, h.isDisplay_element, mapBlocks, Block.map, Paragraph.map, Block.ofContent,
      List.map_singleton, hequation heq]
  have hplain : (Node.element name attributes []).isEquation = false := Bool.eq_false_iff.2 heq
  have hnamed : (Node.element name attributes children).isNamed "table" = true ↔ name = "table" := by
    simp [Node.isNamed, Node.name?]
  simp only [Walker.inside, isEquation_element, hplain, hinline, Bool.false_eq_true, if_false, hnamed, isList_element,
    isOneOf_element] at hagrees
  by_cases hlist : name ∈ (["ul", "ol"] : List Text)
  · rw [if_pos hlist, List.forall_mem_singleton] at hagrees
    rw [block_list hplain hlist, block_list hplain hlist, hagrees]
  by_cases htable : name = "table"
  · rw [if_neg hlist, if_pos htable, List.forall_mem_singleton] at hagrees
    rw [block_rows hplain htable, block_rows hplain htable, mapBlocks_tableOf, mapBlocks_tableOf, hagrees]
  by_cases hpre : name = "pre"
  · rw [block_code hplain hpre, block_code hplain hpre, h.textContent_element]
  by_cases hrule : name = "hr"
  · rw [block_rule hplain hrule, block_rule hplain hrule]
  rw [if_neg hlist, if_neg htable, if_neg (by simp [hpre, hrule])] at hagrees
  have hother : name ∉ otherNames := by simpa [otherNames, htable, hpre, hrule] using hlist
  have hkind : isParagraph (.element name attributes children') = isParagraph (.element name attributes children) :=
    congrArg (fun any => (Node.element name attributes []).isOneOf paragraphNames || !any) h.any_isBlock
  cases hparagraph : isParagraph (.element name attributes children) with
  | true =>
    rw [if_pos hparagraph, List.forall_mem_singleton] at hagrees
    obtain ⟨kind, empty, look, hblock⟩ := exists_block_paragraph hplain hother place
    rw [hblock children hparagraph, hblock children' (hkind.trans hparagraph)]
    simp only [mapBlocks, Block.map, Paragraph.map, hagrees look]
  | false =>
    rw [hparagraph, if_neg Bool.false_ne_true, List.forall_mem_singleton] at hagrees
    rw [block_flow hplain hother hparagraph, block_flow hplain hother (hkind.trans hparagraph), hagrees]

end Element

/-- Where a comment stands inside an element, every walk gives the same around it. -/
theorem agrees_inside {walker : Walker} (front back : List Node) {name : Text} {attributes : List (Text × Text)}
    {children children' : List Node} (h : Commented same walkers children children')
    (hequation : walker.shows (.element name attributes children) = true →
      g (.equation (.element name attributes children')) = g (.equation (.element name attributes children)))
    (hagrees : ∀ inner ∈ walker.inside (.element name attributes children), Agrees g inner children children') :
    Agrees g walker (front ++ .element name attributes children :: back)
      (front ++ .element name attributes children' :: back) := by
  -- All walks but that by blocks take the nodes one by one, so what is in front and behind drops out.
  have hnamed : ∀ other, (Node.element name attributes children).isNamed other = true ↔ name = other := by
    simp [Node.isNamed, Node.name?]
  cases walker with
  | blocks =>
    intro place
    have hequation : (Node.element name attributes children).isEquation = true →
        g (.equation (.element name attributes children')) = g (.equation (.element name attributes children)) :=
      fun heq => hequation (by rw [Walker.shows, heq]; rfl)
    cases hinline : isInline (.element name attributes children) with
    | true =>
      refine mapBlocks_flow_element h hinline (map_inlines_element hequation fun inner hinner => hagrees inner ?_) place [] front back
      have hplain : ¬ (Node.element name attributes children).isEquation = true := by
        intro heq
        rw [insideInline, heq, Bool.true_or, Bool.true_or, if_pos rfl] at hinner
        cases hinner
      rwa [Walker.inside, if_neg hplain, if_pos hinline]
    | false =>
      rw [blocksFrom_append_cons hinline, blocksFrom_append_cons (h.isInline_element _ _ ▸ hinline)]
      simp only [mapBlocks_append, mapBlocks_block_element h hinline hequation hagrees]
  | pieces =>
    intro look
    have hpieces := map_inlines_element (fun heq => hequation (by rw [Walker.shows, heq]; rfl)) hagrees
    simp only [inlinesOf_append, inlinesOf, List.map_append, hpieces]
  | items =>
    intro ordered depth
    simp only [Walker.inside, hnamed] at hagrees
    simp only [items_append, items, mapBlocks_append]
    by_cases hitem : name = "li"
    · rw [if_pos hitem] at hagrees
      obtain ⟨hentry, hlists⟩ := List.forall_mem_cons.1 hagrees
      rw [List.forall_mem_singleton] at hlists
      simp only [if_pos hitem, mapBlocks, Block.map, Paragraph.map, hentry .plain, hlists (depth + 1)]
    · simp only [if_neg hitem]
  | entry =>
    intro look
    have hlist : isList (.element name attributes children') = isList (.element name attributes children) := rfl
    simp only [List.filter_append, List.filter_cons, inlinesOf_append, hlist]
    cases hname : isList (.element name attributes children) with
    | true => rfl
    | false =>
      simp only [Walker.inside, hname, Bool.false_eq_true, if_false] at hagrees
      have hpieces := map_inlines_element (fun heq => hequation (by rw [Walker.shows, heq, hname]; rfl)) hagrees
      simp only [Bool.not_false, if_true, inlinesOf, List.map_append, hpieces]
  | lists =>
    intro depth
    simp only [Walker.inside, isList_element] at hagrees
    simp only [lists_append, lists, mapBlocks_append]
    by_cases hlist : name ∈ (["ul", "ol"] : List Text)
    · rw [if_pos hlist, List.forall_mem_singleton] at hagrees
      split_ifs
      · rw [hagrees false depth]
      · rw [hagrees true depth]
      · rfl
    · simp only [List.mem_cons, List.not_mem_nil, or_false, not_or] at hlist
      simp only [if_neg hlist.1, if_neg hlist.2]
  | rows =>
    intro inHead
    simp only [Walker.inside, hnamed] at hagrees
    simp only [rowsOf_append, rowsOf, rows, List.map_append]
    by_cases htable : name = "table"
    · simp only [if_pos htable]
    rw [if_neg htable] at hagrees
    by_cases hrow : name = "tr"
    · rw [if_pos hrow] at hagrees
      obtain ⟨hcells, hrows⟩ := List.forall_mem_cons.1 hagrees
      simp only [if_neg htable, if_pos hrow, List.map_cons, Row.seen, hcells inHead]
      rw [List.forall_mem_singleton.1 hrows inHead]
    · rw [if_neg hrow, List.forall_mem_singleton] at hagrees
      simp only [if_neg htable, if_neg hrow]
      rw [hagrees]
  | cells =>
    intro inHead
    simp only [Walker.inside, isCell_element] at hagrees
    simp only [cells_append, cells, List.map_append]
    by_cases hcell : name = "th" ∨ name = "td"
    · rw [if_pos hcell, List.forall_mem_singleton] at hagrees
      have hcells : (fun bold => mapBlocks g (blocksFrom ⟨bold, inHead⟩ [] children')) =
          fun bold => mapBlocks g (blocksFrom ⟨bold, inHead⟩ [] children) := funext fun bold => hagrees ⟨bold, inHead⟩
      simp only [if_pos hcell, List.map_singleton, hcells]
    · simp only [if_neg hcell]

/-- Nodes with a comment give the same as without it, as far as `g` tells pieces apart and equations stay the same for it. -/
theorem Commented.agrees (hg : ∀ {walkers name attributes children children'}, Commented same walkers children children' →
      same (.element name attributes children) (.element name attributes children') →
      g (.equation (.element name attributes children')) = g (.equation (.element name attributes children)))
    (h : Commented same walkers nodes nodes') : ∀ walker ∈ walkers, Agrees g walker nodes nodes' := by
  induction h with
  | among front back comment hflow => exact fun walker hwalker => agrees_among comment fun heq => hflow (heq ▸ hwalker)
  | inside front back hsame h ih =>
    intro walker hwalker
    refine agrees_inside front back h (fun hshows => hg h (hsame walker hwalker hshows)) fun inner hinner => ?_
    exact ih inner (List.mem_flatMap.2 ⟨walker, hwalker, hinner⟩)

end Agreement

/-! ### Documents -/

theorem valueFrom_bind_congr {α β : Type} {m m' : Composing α} {k k' : α → Composing β} (hm : m'.valueFrom = m.valueFrom)
    (hk : ∀ a, (k' a).valueFrom = (k a).valueFrom) : Composing.valueFrom (m' >>= k') = Composing.valueFrom (m >>= k) := by
  funext r
  rw [Composing.valueFrom_bind, Composing.valueFrom_bind, hm]
  simp only [hk]

section Composing

variable (s : Surroundings)

/-- What composing makes of a piece, from a registry on. -/
def Inline.meaning (p : Inline) : Registry → Except Xml.Unwritable (List Piece × Registry) := (composeInline s p).valueFrom

/-- An equation means what its markup and its source do. -/
theorem meaning_equation {node node' : Node} (hmarkup : s.markup? node' = s.markup? node)
    (hdisplay : node'.isDisplay = node.isDisplay)
    (hfallback : node'.fallbackText s.settings.maxTitleLatexLength = node.fallbackText s.settings.maxTitleLatexLength) :
    Inline.meaning s (.equation node') = Inline.meaning s (.equation node) := by
  have hasked : ∀ node, (markupOf s node).valueFrom = fun r => .ok (s.markup? node, r) := fun _ => rfl
  refine valueFrom_bind_congr ((hasked node').trans (hmarkup ▸ (hasked node).symm)) fun markup => ?_
  rw [hdisplay, hfallback]

theorem valueFrom_composeInlines {content content' : List Inline}
    (h : content'.map (Inline.meaning s) = content.map (Inline.meaning s)) :
    (composeInlines s content').valueFrom = (composeInlines s content).valueFrom := by
  induction content generalizing content' with
  | nil => rw [List.map_eq_nil_iff.1 h]
  | cons p rest ih =>
    obtain ⟨p', rest', rfl, hp, hrest⟩ := List.map_eq_cons_iff.1 h
    exact valueFrom_bind_congr hp fun first => valueFrom_bind_congr (ih hrest) fun later => rfl

mutual

theorem valueFrom_composeBlock : ∀ {block block' : Block Inline},
    block'.map (Inline.meaning s) = block.map (Inline.meaning s) →
    (composeBlock s block').valueFrom = (composeBlock s block).valueFrom
  | .paragraph ⟨kind, empty, content⟩, .paragraph ⟨kind', empty', content'⟩, h => by
    rw [Block.map, Block.map, Block.paragraph.injEq, Paragraph.map, Paragraph.map, Paragraph.mk.injEq] at h
    obtain ⟨rfl, rfl, hcontent⟩ := h
    rw [composeBlock, composeBlock]
    exact valueFrom_bind_congr (valueFrom_composeInlines s hcontent) fun pieces => rfl
  | .table rows, .table rows', h => by
    rw [Block.map, Block.map, Block.table.injEq] at h
    rw [composeBlock, composeBlock]
    exact valueFrom_bind_congr (valueFrom_composeRows h) fun rows => rfl
  | .paragraph _, .table _, h => nomatch h
  | .table _, .paragraph _, h => nomatch h

theorem valueFrom_composeBlocks : ∀ {blocks blocks' : List (Block Inline)},
    mapBlocks (Inline.meaning s) blocks' = mapBlocks (Inline.meaning s) blocks →
    (composeBlocks s blocks').valueFrom = (composeBlocks s blocks).valueFrom
  | [], [], _ => rfl
  | block :: rest, block' :: rest', h => by
    rw [mapBlocks, mapBlocks, List.cons.injEq] at h
    rw [composeBlocks, composeBlocks]
    exact valueFrom_bind_congr (valueFrom_composeBlock h.1) fun first =>
      valueFrom_bind_congr (valueFrom_composeBlocks h.2) fun later => rfl
  | [], _ :: _, h => nomatch h
  | _ :: _, [], h => nomatch h

theorem valueFrom_composeCells : ∀ {cells cells' : List (List (Block Inline))},
    mapCells (Inline.meaning s) cells' = mapCells (Inline.meaning s) cells →
    (composeCells s cells').valueFrom = (composeCells s cells).valueFrom
  | [], [], _ => rfl
  | cell :: rest, cell' :: rest', h => by
    rw [mapCells, mapCells, List.cons.injEq] at h
    rw [composeCells, composeCells]
    exact valueFrom_bind_congr (valueFrom_composeBlocks h.1) fun first =>
      valueFrom_bind_congr (valueFrom_composeCells h.2) fun later => rfl
  | [], _ :: _, h => nomatch h
  | _ :: _, [], h => nomatch h

theorem valueFrom_composeRows : ∀ {rows rows' : List (List (List (Block Inline)))},
    mapRows (Inline.meaning s) rows' = mapRows (Inline.meaning s) rows →
    (composeRows s rows').valueFrom = (composeRows s rows).valueFrom
  | [], [], _ => rfl
  | row :: rest, row' :: rest', h => by
    rw [mapRows, mapRows, List.cons.injEq] at h
    rw [composeRows, composeRows]
    exact valueFrom_bind_congr (valueFrom_composeCells h.1) fun first =>
      valueFrom_bind_congr (valueFrom_composeRows h.2) fun later => rfl
  | [], _ :: _, h => nomatch h
  | _ :: _, [], h => nomatch h

end

/-- A document is told by what the pieces of its outline mean. -/
theorem value_compose {outline outline' : List (Block Inline)}
    (h : mapBlocks (Inline.meaning s) outline' = mapBlocks (Inline.meaning s) outline) :
    (compose s outline').value = (compose s outline).value :=
  congrFun (valueFrom_bind_congr rfl fun _ => valueFrom_composeBlocks s h) Registry.empty

end Composing

/-- The document of the nodes that are walked of a page. -/
def documentOf (s : Surroundings) (nodes : List Node) : Traced (Except Fault Exported) := do
  match ← compose s (blocks nodes) with
  | .error e => pure (.error (.unwritable e))
  | .ok (blocks, registry) => pure (spliced s.settings.mathFont blocks registry)

theorem create_eq_documentOf {s : Surroundings} {html : Text} {page : List Node}
    (h : Node.parse ("<div>" ++ html ++ ("</div>" : Text)) = .ok page) : create s html = documentOf s (content page) := by
  have houtline : outline html = .ok (blocks (content page)) := by rw [outline, h]; rfl
  rw [create, houtline]
  rfl

/-- Without equations, the document is the blocks as they are written. -/
theorem value_documentOf_of_empty {s : Surroundings} {nodes : List Node} {composed : List (Block Piece)}
    {registry : Registry} (h : (compose s (blocks nodes)).value = .ok (composed, registry)) (hnone : registry.replacements = []) :
    (documentOf s nodes).value = .ok ⟨textOf (writeBlocks Piece.pending composed), s.settings.mathFont⟩ := by
  rw [documentOf, Traced.value_bind, h]
  show spliced s.settings.mathFont composed registry = _
  rw [spliced, hnone]
  rfl

/-- An equation is converted the same if the comment is not in its MathML. -/
theorem Commented.markup?_element {children children' : List Node} (h : Commented same walkers children children')
    {name : Text} {attributes : List (Text × Text)} (s : Surroundings)
    (hmathml : (Node.element name attributes children').mathml? = (Node.element name attributes children).mathml?) :
    s.markup? (.element name attributes children') = s.markup? (.element name attributes children) := by
  rw [Surroundings.markup?, Surroundings.built, Node.sources, h.latex?_element, h.isDisplay_element, hmathml]
  rfl

/--
A comment anywhere on a page leaves the document as it is: in a paragraph, in a list or an item, in a table, a row or a
cell, in preformatted text and between blocks, at whatever depth. There are two exceptions. In a sequence of nodes that is
walked block by block it may not stand between two inline nodes, and inside an equation it may not change what
the converters make of it.
-/
theorem value_documentOf_comment (s : Surroundings) {nodes nodes' : List Node}
    (h : Commented (fun node node' => s.markup? node' = s.markup? node) [.blocks] nodes nodes') :
    (documentOf s nodes').value = (documentOf s nodes).value := by
  have hmeaning := h.agrees (g := Inline.meaning s) fun hinner hmarkup =>
    meaning_equation s hmarkup (hinner.isDisplay_element _ _) (hinner.fallbackText_element _ _ _)
  have hvalue := value_compose s (hmeaning .blocks List.mem_cons_self ⟨false, false⟩)
  have hcomposed : (compose s (blocks nodes')).value = (compose s (blocks nodes)).value := hvalue
  rw [documentOf, documentOf, Traced.value_bind, Traced.value_bind, hcomposed]

/-- A comment in what is rendered of an equation, which stands in a paragraph of a division and is converted. -/
theorem comment_in_rendering :
    let s : Surroundings := ⟨⟨fun _ => some "<m:r><m:t>x</m:t></m:r>", fun _ _ => none⟩,
      ⟨[], [], 8000, [], "Cambria Math", "Consolas", 5000, []⟩⟩
    let source : Node := .element "span" [("class", "katex-mathml")] [.element "math" [] [.text .plain "x"]]
    let equation (shown : List Node) : Node := .element "span" [("class", "katex")] [source, .element "span" [] shown]
    let nodes (shown : List Node) : List Node :=
      [.text .plain "a", .element "div" [] [.element "p" [] [.text .plain "b", equation shown]], .text .plain "c"]
    (documentOf s (nodes [.markup .comment "d"])).value = (documentOf s (nodes [])).value ∧
      (compose s (blocks (nodes []))).value.toOption.any (·.2.replacements.length == 1) = true := by
  intro s source equation nodes
  have hrendering : Commented (fun node node' => s.markup? node' = s.markup? node) []
      [source, .element "span" [] []] [source, .element "span" [] [.markup .comment "d"]] :=
    .inside [source] [] (fun _ h => nomatch h) (.among [] [] "d" fun h => nomatch h)
  have hparagraph : Commented (fun node node' => s.markup? node' = s.markup? node) [.pieces]
      [.text .plain "b", equation []] [.text .plain "b", equation [.markup .comment "d"]] :=
    .inside [.text .plain "b"] [] (fun _ _ _ => hrendering.markup?_element s rfl) hrendering
  have hdivision : Commented (fun node node' => s.markup? node' = s.markup? node) [.blocks]
      [.element "p" [] [.text .plain "b", equation []]] [.element "p" [] [.text .plain "b", equation [.markup .comment "d"]]] :=
    .inside [] [] (fun walker hwalker => by rw [List.mem_singleton.1 hwalker]; decide) hparagraph
  have hnodes : Commented (fun node node' => s.markup? node' = s.markup? node) [.blocks] (nodes []) (nodes [.markup .comment "d"]) :=
    .inside [.text .plain "a"] [.text .plain "c"] (fun walker hwalker => by rw [List.mem_singleton.1 hwalker]; decide) hdivision
  exact ⟨value_documentOf_comment s hnodes, by decide +kernel⟩

/-- The nodes are a text and an element around a text, with a comment between them if one is given. -/
def isSplit (comment : Option Text) (first name second : Text) : List Node → Bool
  | [.text .plain t, .element n [] [.text .plain u]] => comment = none && (t, n, u) = (first, name, second)
  | [.text .plain t, .markup .comment c, .element n [] [.text .plain u]] =>
    comment = some c && (t, n, u) = (first, name, second)
  | _ => false

theorem eq_of_isSplit {comment : Option Text} {first name second : Text} {nodes : List Node}
    (h : isSplit comment first name second nodes = true) : nodes =
      [.text .plain first] ++ ((comment.map (.markup .comment)).toList ++ [.element name [] [.text .plain second]]) := by
  unfold isSplit at h
  split at h
  · obtain ⟨rfl, rfl, rfl, rfl⟩ := by simpa using h
    rfl
  · obtain ⟨rfl, rfl, rfl, rfl⟩ := by simpa using h
    rfl
  · cases h

/-- A comment between a text and an element in bold, which share a paragraph without it: there are two paragraphs. -/
theorem comment_splits_paragraph :
    let s : Surroundings := ⟨⟨fun _ => none, fun _ _ => none⟩, ⟨[], [], 8000, [], "Cambria Math", "Consolas", 5000, []⟩⟩
    let front : List Node := [.text .plain "a"]
    let back : List Node := [.element "b" [] [.text .plain "b"]]
    ∃ page page' body body', Node.parse ("<div>" ++ ("a<b>b</b>" : Text) ++ ("</div>" : Text)) = .ok page ∧
      Node.parse ("<div>" ++ ("a<!--c--><b>b</b>" : Text) ++ ("</div>" : Text)) = .ok page' ∧
      content page = front ++ back ∧ content page' = front ++ .markup .comment "c" :: back ∧
      (create s "a<b>b</b>").value = .ok ⟨textOf body, "Cambria Math"⟩ ∧
      (create s "a<!--c--><b>b</b>").value = .ok ⟨textOf body', "Cambria Math"⟩ ∧
      ¬ ("</w:p><w:p>" : Text) <:+: body ∧ ("</w:p><w:p>" : Text) <:+: body' := by
  intro s front back
  have hpage : (Node.parse ("<div>" ++ ("a<b>b</b>" : Text) ++ ("</div>" : Text))).toOption.any
      (fun page => isSplit none "a" "b" "b" (content page)) = true := by decide +kernel
  have hpage' : (Node.parse ("<div>" ++ ("a<!--c--><b>b</b>" : Text) ++ ("</div>" : Text))).toOption.any
      (fun page => isSplit (some "c") "a" "b" "b" (content page)) = true := by decide +kernel
  have hblocks : (compose s (blocks (front ++ back))).value.toOption.any (fun found =>
      found.2.replacements.isEmpty && !(writeBlocks Piece.pending found.1).contains "</w:p><w:p>") = true := by decide +kernel
  have hblocks' : (compose s (blocks (front ++ .markup .comment "c" :: back))).value.toOption.any (fun found =>
      found.2.replacements.isEmpty && (writeBlocks Piece.pending found.1).contains "</w:p><w:p>") = true := by decide +kernel
  obtain ⟨page, hparse, hcontent⟩ := exists_ok_of_any hpage
  obtain ⟨page', hparse', hcontent'⟩ := exists_ok_of_any hpage'
  obtain ⟨⟨composed, registry⟩, hcompose, htest⟩ := exists_ok_of_any hblocks
  obtain ⟨⟨composed', registry'⟩, hcompose', htest'⟩ := exists_ok_of_any hblocks'
  simp only [Bool.and_eq_true, List.isEmpty_iff, Bool.not_eq_true', ← Bool.not_eq_true, Text.contains_iff] at htest htest'
  have hcontent : content page = front ++ back := eq_of_isSplit hcontent
  have hcontent' : content page' = front ++ .markup .comment "c" :: back := eq_of_isSplit hcontent'
  refine ⟨page, page', writeBlocks Piece.pending composed, writeBlocks Piece.pending composed', hparse, hparse', hcontent,
    hcontent', ?_, ?_, htest.2, htest'.2⟩
  · rw [create_eq_documentOf hparse, hcontent, value_documentOf_of_empty hcompose htest.1]
  · rw [create_eq_documentOf hparse', hcontent', value_documentOf_of_empty hcompose' htest'.1]

end EquationExport.Document
