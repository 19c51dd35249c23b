import EquationExport.Proofs.Document.Flow

/-!
# Lists keep order, kind and depth

The items of a list of the page are the items that stand directly in it, those of the lists that stand directly in one of
these, and so on. The outline has one paragraph for each of them, in the order of the page. It is of the kind of the list that
the item stands in, and as deep as there are lists around the item. Composing neither drops one of these paragraphs nor adds
any: an item without content is a paragraph with a blank run.

Which nodes are items is said by what is around a node: a list, an item, a list and so on, out to the outermost list. If
lists hold items only, and items hold no items but those of the lists directly in them, this is so for every item inside.
-/

namespace EquationExport.Document

open EquationExport.Html (Node)

/-! ### Nodes in their places -/

/-- A node of a page with the elements around it, the nearest first. -/
structure Placed where
  around : List Node
  node : Node

mutual

/-- A node and all nodes inside it, in the order of the page, each with what is around it. -/
def placed (around : List Node) : Node → List Placed
  | .element name attributes children =>
    ⟨around, .element name attributes children⟩ :: placedAll (.element name attributes children :: around) children
  | other => [⟨around, other⟩]

/-- Nodes and all nodes inside them, in the order of the page, each with what is around it. -/
def placedAll (around : List Node) : List Node → List Placed
  | [] => []
  | node :: rest => placed around node ++ placedAll around rest

end

mutual

theorem map_node_placed (around : List Node) : ∀ node, (placed around node).map (·.node) = Node.subtree node
  | .element _ _ children => congrArg (List.cons _) (map_node_placedAll _ children)
  | .text .. => rfl
  | .markup .. => rfl

theorem map_node_placedAll (around : List Node) : ∀ nodes, (placedAll around nodes).map (·.node) = Node.subtrees nodes
  | [] => rfl
  | node :: rest => by
    rw [placedAll, List.map_append, map_node_placed around node, map_node_placedAll around rest, Node.subtrees]

end

/-! ### Items of a list -/

mutual

/-- What stands here stands directly in a list, be it the outermost or one that stands in an item. -/
def isInList : List Node → Bool
  | [] => false
  | list :: around => isList list && (around.isEmpty || isInItem around)

/-- What stands here stands directly in an item. -/
def isInItem : List Node → Bool
  | [] => false
  | item :: around => item.isNamed "li" && isInList around

end

namespace Placed

/-- An item of the outermost list or of a list in an item. -/
def isItem (p : Placed) : Bool := p.node.isNamed "li" && isInList p.around

/-- The number of lists around. -/
def depth (p : Placed) : Nat := p.around.countP isList

/-- The list that the item stands in is a numbered one. -/
def isOrdered (p : Placed) : Bool := p.around.head?.any (·.isNamed "ol")

/-- What stands in an item, but for the lists directly in it. -/
def content (p : Placed) : List Inline := inlinesOf .plain (p.node.children.filter fun child => !isList child)

/-- The paragraph of an item. -/
def paragraph (p : Placed) : Paragraph Inline := ⟨.item p.isOrdered p.depth, .fill, p.content⟩

/-- What the paragraph of an item holds in the document, but for tokens: a blank run if nothing shows. -/
def pieces (s : Surroundings) (p : Placed) : List Piece :=
  if (p.content.flatMap (·.pieces s)).isEmpty then [.run .blank] else p.content.flatMap (·.pieces s)

end Placed

/-- The items of a list and of the lists in it, in the order of the page. -/
def itemsOf (list : Node) : List Placed := (placed [] list).filter (·.isItem)

/-! ### The walk over a list -/

theorem isNamed_element {name other : Text} {attributes : List (Text × Text)} {children : List Node} :
    (Node.element name attributes children).isNamed other = true ↔ name = other := by
  simp [Node.isNamed, Node.name?]

theorem isList_eq_false_of_item {node : Node} (h : node.isNamed "li" = true) : isList node = false := by
  cases node with
  | text => cases h
  | markup => cases h
  | element name attributes children =>
    obtain rfl := isNamed_element.1 h
    rfl

/-- Neither a list nor an item that counts stands directly around, so none is further inside. -/
def isApart (around : List Node) : Bool := !around.isEmpty && !isInList around && !isInItem around

theorem isApart_cons {around : List Node} (h : isApart around = true) (node : Node) : isApart (node :: around) = true := by
  simp only [isApart, Bool.and_eq_true, Bool.not_eq_true'] at h
  simp [isApart, isInList, isInItem, h.1.1, h.1.2, h.2]

mutual

theorem filter_placed_of_isApart {around : List Node} (h : isApart around = true) :
    ∀ node, (placed around node).filter (·.isItem) = []
  | .element name attributes children => by
    have hself : isInList around = false := by
      simp only [isApart, Bool.and_eq_true, Bool.not_eq_true'] at h
      exact h.1.2
    rw [placed, List.filter_cons_of_neg (by simp [Placed.isItem, hself])]
    exact filter_placedAll_of_isApart (isApart_cons h _) children
  | .text .. => rfl
  | .markup .. => rfl

theorem filter_placedAll_of_isApart {around : List Node} (h : isApart around = true) :
    ∀ nodes, (placedAll around nodes).filter (·.isItem) = []
  | [] => rfl
  | node :: rest => by
    rw [placedAll, List.filter_append, filter_placed_of_isApart h node, filter_placedAll_of_isApart h rest, List.append_nil]

end

/-- What stands directly in a list does not stand directly in an item. -/
theorem isInItem_eq_false {around : List Node} (h : isInList around = true) : isInItem around = false := by
  cases around with
  | nil => rfl
  | cons list around =>
    rw [isInList, Bool.and_eq_true] at h
    refine Bool.eq_false_iff.2 fun hitem => ?_
    rw [isInItem, Bool.and_eq_true] at hitem
    simp [isList_eq_false_of_item hitem.1] at h

mutual

/-- The items of a list in its place, one by one. -/
theorem items_eq_map {around : List Node} (h : isInList around = true) : ∀ nodes,
    items (around.head?.any (·.isNamed "ol")) (around.countP isList) nodes =
      ((placedAll around nodes).filter (·.isItem)).map fun p => .paragraph p.paragraph
  | [] => by rw [items]; rfl
  | .element name attributes children :: rest => by
    rw [items, placedAll, List.filter_append, List.map_append, items_eq_map h rest]
    congr 1
    by_cases hname : name = "li"
    · have hitem : (Node.element name attributes children).isNamed "li" = true := isNamed_element.2 hname
      have hinside : isInItem (.element name attributes children :: around) = true := by rw [isInItem, hitem, h]; rfl
      have hself : Placed.isItem ⟨around, .element name attributes children⟩ = true := by rw [Placed.isItem, hitem, h]; rfl
      have hdepth : (Node.element name attributes children :: around).countP isList = around.countP isList :=
        List.countP_cons_of_neg (by simp [isList_eq_false_of_item hitem])
      rw [if_pos hname, placed, List.filter_cons_of_pos hself, List.map_cons, ← lists_eq_map hinside children, hdepth]
      rfl
    · have hitem : (Node.element name attributes children).isNamed "li" = false := Bool.eq_false_iff.2 (mt isNamed_element.1 hname)
      have hinside : isApart (.element name attributes children :: around) = true := by
        have hne : around.isEmpty = false := by
          cases around with
          | nil => cases h
          | cons => rfl
        simp [isApart, isInList, isInItem, hitem, hne, isInItem_eq_false h]
      rw [if_neg hname, placed, List.filter_cons_of_neg (by simp [Placed.isItem, hitem]), filter_placedAll_of_isApart hinside]
      rfl
  | .text .. :: rest => by
    rw [items, placedAll, List.filter_append, List.map_append, items_eq_map h rest]
    rfl
  | .markup .. :: rest => by
    rw [items, placedAll, List.filter_append, List.map_append, items_eq_map h rest]
    rfl

/-- The items of the lists in an item, one by one. -/
theorem lists_eq_map {around : List Node} (h : isInItem around = true) : ∀ nodes,
    lists (around.countP isList + 1) nodes =
      ((placedAll around nodes).filter (·.isItem)).map fun p => .paragraph p.paragraph
  | [] => by rw [lists]; rfl
  | .element name attributes children :: rest => by
    have hself : Placed.isItem ⟨around, .element name attributes children⟩ = false := by
      have hnot : isInList around = false := Bool.eq_false_iff.2 fun hlist => by simp [isInItem_eq_false hlist] at h
      rw [Placed.isItem, hnot, Bool.and_false]
    rw [lists, placedAll, List.filter_append, List.map_append, lists_eq_map h rest, placed,
      List.filter_cons_of_neg (by simp [hself])]
    congr 1
    by_cases hname : name ∈ (["ul", "ol"] : List Text)
    · have hlist : isList (.element name attributes children) = true := isList_element.2 hname
      have hinside : isInList (.element name attributes children :: around) = true := by rw [isInList, hlist, h, Bool.or_true]; rfl
      have hdepth : (Node.element name attributes children :: around).countP isList = around.countP isList + 1 :=
        List.countP_cons_of_pos hlist
      rw [← items_eq_map hinside children, hdepth]
      simp only [List.mem_cons, List.not_mem_nil, or_false] at hname
      rcases hname with rfl | rfl <;> rfl
    · have hinside : isApart (.element name attributes children :: around) = true := by
        have hlist : isList (.element name attributes children) = false := Bool.eq_false_iff.2 (mt isList_element.1 hname)
        have hnot : isInList around = false := Bool.eq_false_iff.2 fun hlist => by simp [isInItem_eq_false hlist] at h
        simp [isApart, isInList, isInItem, hlist, hnot]
      simp only [List.mem_cons, List.not_mem_nil, or_false, not_or] at hname
      rw [if_neg hname.1, if_neg hname.2, filter_placedAll_of_isApart hinside]
      rfl
  | .text .. :: rest => by
    rw [lists, placedAll, List.filter_append, List.map_append, lists_eq_map h rest]
    rfl
  | .markup .. :: rest => by
    rw [lists, placedAll, List.filter_append, List.map_append, lists_eq_map h rest]
    rfl

end

/-- The walk over a list gives the paragraphs of its items. -/
theorem items_eq_itemsOf {name : Text} (hname : name ∈ (["ul", "ol"] : List Text)) (attributes : List (Text × Text))
    (children : List Node) : items (name = "ol") 1 children =
      (itemsOf (.element name attributes children)).map fun p => .paragraph p.paragraph := by
  have hlist : isList (.element name attributes children) = true := isList_element.2 hname
  have hinside : isInList [.element name attributes children] = true := by rw [isInList, hlist]; rfl
  have hself : Placed.isItem ⟨[], .element name attributes children⟩ = false := Bool.and_false _
  rw [itemsOf, placed, List.filter_cons_of_neg (by simp [hself]), ← items_eq_map hinside]
  have hdepth : [Node.element name attributes children].countP isList = 1 := List.countP_cons_of_pos hlist
  have hordered : [Node.element name attributes children].head?.any (·.isNamed "ol") = decide (name = "ol") := by
    rw [Bool.eq_iff_iff, decide_eq_true_iff]
    exact (isNamed_element : (Node.element name attributes children).isNamed "ol" = true ↔ name = "ol")
  rw [hdepth, hordered]

/-! ### Lists all of whose items count -/

mutual

/-- A list whose elements are items, each of which holds lists of this kind and beside them nodes without items. -/
def isListTree : Node → Bool
  | .element name _ children => name ∈ (["ul", "ol"] : List Text) && holdsItems children
  | _ => false

/-- The elements among the nodes are items of a list. -/
def holdsItems : List Node → Bool
  | [] => true
  | .element name _ children :: rest => name = "li" && holdsLists children && holdsItems rest
  | _ :: rest => holdsItems rest

/-- The items inside the nodes are those of the lists among them. -/
def holdsLists : List Node → Bool
  | [] => true
  | node :: rest =>
    (if isList node then isListTree node else (Node.subtree node).all (!·.isNamed "li")) && holdsLists rest

end

mutual

theorem filter_placed_of_isListTree {around : List Node} (h : (around.isEmpty || isInItem around) = true) :
    ∀ node, isListTree node = true →
      (placed around node).filter (·.isItem) = (placed around node).filter (·.node.isNamed "li")
  | .element name attributes children, htree => by
    rw [isListTree, Bool.and_eq_true, decide_eq_true_eq] at htree
    have hlist : isList (.element name attributes children) = true := isList_element.2 htree.1
    have hinside : isInList (.element name attributes children :: around) = true := by rw [isInList, hlist, h]; rfl
    have hself : (Node.element name attributes children).isNamed "li" = false :=
      Bool.eq_false_iff.2 fun hitem => by simp [isList_eq_false_of_item hitem] at hlist
    rw [placed, List.filter_cons_of_neg (by simp [Placed.isItem, hself]), List.filter_cons_of_neg (by simp [hself])]
    exact filter_placedAll_of_holdsItems hinside children htree.2
  | .text .., htree => nomatch htree
  | .markup .., htree => nomatch htree

theorem filter_placedAll_of_holdsItems {around : List Node} (h : isInList around = true) : ∀ nodes, holdsItems nodes = true →
    (placedAll around nodes).filter (·.isItem) = (placedAll around nodes).filter (·.node.isNamed "li")
  | [], _ => rfl
  | .element name attributes children :: rest, hitems => by
    rw [holdsItems, Bool.and_eq_true, Bool.and_eq_true, decide_eq_true_eq] at hitems
    have hitem : (Node.element name attributes children).isNamed "li" = true := isNamed_element.2 hitems.1.1
    have hinside : isInItem (.element name attributes children :: around) = true := by rw [isInItem, hitem, h]; rfl
    rw [placedAll, List.filter_append, List.filter_append, filter_placedAll_of_holdsItems h rest hitems.2, placed,
      List.filter_cons_of_pos (by simp [Placed.isItem, hitem, h]), List.filter_cons_of_pos (by simp [hitem]),
      filter_placedAll_of_holdsLists hinside children hitems.1.2]
  | .text .. :: rest, hitems => by
    rw [placedAll, List.filter_append, List.filter_append, filter_placedAll_of_holdsItems h rest hitems]
    rfl
  | .markup .. :: rest, hitems => by
    rw [placedAll, List.filter_append, List.filter_append, filter_placedAll_of_holdsItems h rest hitems]
    rfl

theorem filter_placedAll_of_holdsLists {around : List Node} (h : isInItem around = true) : ∀ nodes, holdsLists nodes = true →
    (placedAll around nodes).filter (·.isItem) = (placedAll around nodes).filter (·.node.isNamed "li")
  | [], _ => rfl
  | node :: rest, hlists => by
    rw [holdsLists, Bool.and_eq_true] at hlists
    rw [placedAll, List.filter_append, List.filter_append, filter_placedAll_of_holdsLists h rest hlists.2]
    congr 1
    by_cases hlist : isList node = true
    · rw [if_pos hlist] at hlists
      exact filter_placed_of_isListTree (by rw [h, Bool.or_true]) node hlists.1
    · rw [if_neg hlist, ← map_node_placed around node, List.all_map, List.all_eq_true] at hlists
      have hnone : ∀ p ∈ placed around node, p.node.isNamed "li" = false := fun p hp => by simpa using hlists.1 p hp
      rw [List.filter_eq_nil_iff.2 fun p hp => by simp [Placed.isItem, hnone p hp],
        List.filter_eq_nil_iff.2 fun p hp => by simp [hnone p hp]]

end

/-- All items inside such a list are its items. -/
theorem map_node_itemsOf {list : Node} (h : isListTree list = true) :
    (itemsOf list).map (·.node) = (Node.subtree list).filter (·.isNamed "li") := by
  rw [itemsOf, filter_placed_of_isListTree rfl list h, ← map_node_placed [] list, List.filter_map]
  rfl

/-! ### Paragraphs of items -/

theorem depth_pos {list : Node} {p : Placed} (h : p ∈ itemsOf list) : 0 < p.depth := by
  have hlist : isInList p.around = true := (Bool.and_eq_true_iff.1 (List.mem_filter.1 h).2).2
  rw [Placed.depth]
  cases hAround : p.around with
  | nil => simp [hAround, isInList] at hlist
  | cons parent around =>
    rw [hAround, isInList, Bool.and_eq_true] at hlist
    rw [List.countP_cons_of_pos hlist.1]
    exact Nat.succ_pos _

/-- The style of an item: by the kind of its list, with a number for depth two and one for all that are deeper. -/
theorem style?_item (ordered : Bool) {depth : Nat} (h : 0 < depth) : (ParagraphKind.item ordered depth).style? =
    some ((if ordered then "ListNumber" else "ListBullet") ++
      (if depth = 1 then ([] : Text) else if depth = 2 then "2" else "3")) := by
  rw [ParagraphKind.style?]
  by_cases hone : depth = 1
  · subst hone
    cases ordered <;> rfl
  by_cases htwo : depth = 2
  · subst htwo
    cases ordered <;> rfl
  · rw [if_neg (by omega), if_neg hone, if_neg htwo, Nat.min_eq_right (by omega)]
    cases ordered <;> rfl

/-- A paragraph that is filled when nothing shows in it stays. -/
theorem mapBlocks_settledBlock_fill (s : Surroundings) (kind : ParagraphKind) (content : List Inline) :
    mapBlocks (·.piece s) (settledBlock s (.paragraph ⟨kind, .fill, content⟩)) = [.paragraph ⟨kind, .fill,
      if (content.flatMap (·.pieces s)).isEmpty then [.run .blank] else content.flatMap (·.pieces s)⟩] := by
  rw [settledBlock, Paragraph.settled, flatMap_pieces, List.isEmpty_map]
  by_cases hnone : (content.filter (·.isShown s)).isEmpty
  · rw [if_pos hnone, if_pos hnone]
    rfl
  · rw [if_neg hnone, if_neg hnone]
    rfl

theorem mapBlocks_settledBlocks_items (s : Surroundings) (found : List Placed) :
    mapBlocks (·.piece s) (settledBlocks s (found.map fun p => .paragraph p.paragraph)) =
      found.map fun p => .paragraph ⟨p.paragraph.kind, .fill, p.pieces s⟩ := by
  induction found with
  | nil => rfl
  | cons p found ih =>
    rw [List.map_cons, settledBlocks, mapBlocks_append, Placed.paragraph, mapBlocks_settledBlock_fill, ih, List.map_cons,
      List.singleton_append, Placed.pieces, Placed.paragraph]

/--
A list of the page becomes the paragraphs of its items, in the order of the page. The items are among the nodes inside the
list, and are all the items there if every list in it holds items only and every item holds none but those of its lists. An
item is styled by the kind of the list around it, with a number of its own for depth two and another one for all that are
deeper. In the document there is one paragraph for each item again, in this order and with a run at least, unless
a text in it cannot be written.
-/
theorem list_paragraphs {name : Text} (hname : name ∈ (["ul", "ol"] : List Text)) (attributes : List (Text × Text))
    (children : List Node) :
    let list := Node.element name attributes children
    let paragraphs : List (Block Inline) := (itemsOf list).map fun p => .paragraph p.paragraph
    items (name = "ol") 1 children = paragraphs ∧ (list.isEquation = false → ∀ place, block place list = paragraphs) ∧
      ((itemsOf list).map (·.node)).Sublist (Node.subtree list) ∧
      (isListTree list = true → (itemsOf list).map (·.node) = (Node.subtree list).filter (·.isNamed "li")) ∧
      (∀ p ∈ itemsOf list, p.paragraph.kind.style? = some ((if p.isOrdered then "ListNumber" else "ListBullet") ++
        (if p.depth = 1 then ([] : Text) else if p.depth = 2 then "2" else "3"))) ∧
      (∀ s, Yields (composeBlocks s paragraphs) ((contentOfBlocks paragraphs).flatMap (·.texts s))
        ((contentOfBlocks paragraphs).flatMap (·.calls s)) fun blocks => mapBlocks Piece.untokened blocks =
          (itemsOf list).map fun p => .paragraph ⟨p.paragraph.kind, .fill, p.pieces s⟩) ∧
      ∀ s, ∀ p ∈ itemsOf list, p.pieces s ≠ [] := by
  intro list paragraphs
  have hwalk : items (name = "ol") 1 children = paragraphs := items_eq_itemsOf hname attributes children
  refine ⟨hwalk, fun hequation place => ?_, ?_, map_node_itemsOf, fun p hp => style?_item _ (depth_pos hp), fun s => ?_, ?_⟩
  · rw [block_list hequation hname, hwalk]
  · rw [← map_node_placed [] list]
    exact List.filter_sublist.map _
  · refine (yields_composeBlocks s paragraphs).mono fun blocks hblocks => ?_
    rw [hblocks, mapBlocks_settledBlocks_items]
  · intro s p _
    rw [Placed.pieces]
    split
    · exact List.cons_ne_nil _ _
    · next h => simpa using h

/-- A numbered list with a list of bullets in it, four deep, one of whose items holds nothing but the next list. -/
theorem list_paragraphs_mixed :
    let innermost : Node := .element "ol" [] [.element "li" [] [.text .plain "e"]]
    let inner : Node := .element "ul" [] [.element "li" [] [.text .plain "d", innermost]]
    let middle : Node := .element "ul" [] [.element "li" [] [inner]]
    let children : List Node := [.text .plain "\n", .element "li" [] [.element "b" [] [.text .plain "a"], middle],
      .element "li" [] [.text .plain "f"]]
    let list : Node := .element "ol" [] children
    isListTree list = true ∧ items true 1 children = (itemsOf list).map (fun p => .paragraph p.paragraph) ∧
      (∀ place, block place list = (itemsOf list).map (fun p => .paragraph p.paragraph)) ∧
      ((itemsOf list).map (·.node)).length = 5 ∧ (itemsOf list).map (·.paragraph.kind) =
        [.item true 1, .item false 2, .item false 3, .item true 4, .item true 1] := by
  intro innermost inner middle children list
  have htree : isListTree list = true := by decide +kernel
  have hname : ("ol" : Text) ∈ (["ul", "ol"] : List Text) := by decide
  obtain ⟨hwalk, hblock, -, hall, -⟩ := list_paragraphs hname [] children
  refine ⟨htree, hwalk, hblock (by decide +kernel), ?_, by decide +kernel⟩
  rw [hall htree]
  decide +kernel

end EquationExport.Document
