import EquationExport.Proofs.Document.Once

/-!
# Nothing that is read is lost

The document of a page without equations shows what is read of the page, all of it and in this order: each text as it
is normalized, each line break, and preformatted text line by line. Text that is only white space does not count,
and neither do the looks of text.

What is read is less than what stands on the page, and not always in its order. Nothing is read of comments and other
markup, of elements of the class `katex-html` in a paragraph, of line breaks and rules themselves, of a list apart
from its items, of a table apart from the cells of its rows, and of what follows the division in which a page is
read. The lists in an item are read after the rest of the item, and the header of a table before its other rows.
-/

namespace EquationExport.Document

open EquationExport.Html (Node)

/-! ### What shows -/

/-- The piece shows: it is not only white space. -/
def Inline.isVisible : Inline → Bool
  | .text content _ broken => broken || !content.trim.isEmpty
  | .equation _ => true

/-- What shows of some pieces, without their looks. -/
def visible (content : List Inline) : List Inline := (content.map Inline.bare).filter (·.isVisible)

theorem visible_append (content more : List Inline) : visible (content ++ more) = visible content ++ visible more := by
  rw [visible, List.map_append, List.filter_append, visible, visible]

@[simp] theorem Inline.bare_bare (p : Inline) : p.bare.bare = p.bare := by cases p <;> rfl

@[simp] theorem Inline.isVisible_bare (p : Inline) : p.bare.isVisible = p.isVisible := by cases p <;> rfl

theorem map_bare_rendering (node : Node) : (rendering node).map Inline.bare = rendering node := by
  cases node with
  | text kind content =>
    rw [rendering]
    split <;> rfl
  | markup => rfl
  | element name attributes children =>
    rw [rendering]
    split_ifs
    · rfl
    · rfl
    · rw [List.map_map]
      simp only [Function.comp_def, Inline.bare_bare]
    · rfl

/-- A node that does not show is rendered as nothing that shows. -/
theorem visible_rendering_of_hidden {node : Node} (h : shows node = false) : visible (rendering node) = [] := by
  cases node with
  | text kind content =>
    have hblank : content.normalize.trim.isEmpty = true := by simpa [shows] using h
    rw [rendering]
    split
    · rfl
    · simp [visible, Inline.bare, Inline.isVisible, hblank]
  | markup => rfl
  | element => cases h

/-- What shows is what shows of the nodes, all of it and in order. -/
theorem Renders.visible_eq {nodes : List Node} {pieces : List Inline} (h : Renders nodes pieces) :
    visible pieces = visible (nodes.flatMap rendering) := by
  induction h with
  | nil => rfl
  | @each node nodes pieces more hpieces _ ih =>
    have hnode : visible pieces = visible (rendering node) := by rw [visible, visible, hpieces, map_bare_rendering]
    rw [List.flatMap_cons, visible_append, visible_append, hnode, ih]
  | @blank node nodes more hblank _ ih =>
    rw [List.flatMap_cons, visible_append, visible_rendering_of_hidden hblank, List.nil_append, ih]

/-- What is dropped from an outline without equations does not show. -/
theorem visible_settledBlocks {s : Surroundings} {outline : List (Block Inline)}
    (h : ∀ p ∈ contentOfBlocks outline, p.isShown s = true) :
    visible (contentOfBlocks (settledBlocks s outline)) = visible (contentOfBlocks outline) := by
  have hsettled := @filter_content_settledBlocks s Inline.isVisible rfl outline
  rw [List.filter_eq_self.2 h] at hsettled
  rw [visible, visible, List.filter_map, List.filter_map]
  simp only [Function.comp_def, Inline.isVisible_bare]
  exact congrArg _ hsettled

/-! ### Pages without equations -/

mutual

theorem subtrees_children_subset {inner : Node} : ∀ {node : Node}, inner ∈ Node.subtree node →
    Node.subtrees inner.children ⊆ Node.subtree node
  | .text .., h => by
    obtain rfl := List.mem_singleton.1 h
    exact List.nil_subset _
  | .markup .., h => by
    obtain rfl := List.mem_singleton.1 h
    exact List.nil_subset _
  | .element name attributes children, h => by
    rw [subtree_element] at h ⊢
    rcases List.mem_cons.1 h with rfl | h
    · exact List.subset_cons_self _ _
    · exact List.Subset.trans (subtrees_children_subset_of_mem h) (List.subset_cons_self _ _)

theorem subtrees_children_subset_of_mem {inner : Node} : ∀ {nodes : List Node}, inner ∈ Node.subtrees nodes →
    Node.subtrees inner.children ⊆ Node.subtrees nodes
  | [], h => absurd h List.not_mem_nil
  | node :: rest, h => by
    rw [subtrees_cons] at h ⊢
    rcases List.mem_append.1 h with h | h
    · exact List.Subset.trans (subtrees_children_subset h) (List.subset_append_left _ _)
    · exact List.Subset.trans (subtrees_children_subset_of_mem h) (List.subset_append_right _ _)

end

theorem subtrees_content_subset (page : List Node) : Node.subtrees (content page) ⊆ Node.subtrees page := by
  rw [content]
  split
  · next node hfound => exact subtrees_children_subset_of_mem (List.mem_of_find?_eq_some hfound)
  · exact List.nil_subset _

theorem eq_text_of_mem_codePieces {lines : List Text} {p : Inline} (h : p ∈ codePieces lines) :
    ∃ line look broken, p = .text line look broken := by
  induction lines with
  | nil => cases h
  | cons line rest ih =>
    cases rest with
    | nil => exact ⟨_, _, _, List.mem_singleton.1 h⟩
    | cons next rest =>
      rcases List.mem_cons.1 h with rfl | h
      · exact ⟨_, _, _, rfl⟩
      · exact ih h

theorem eq_of_equation_mem_rendering {node source : Node} (h : .equation node ∈ rendering source) :
    source.isEquation = true ∧ source = node := by
  cases source with
  | text kind content =>
    rw [rendering] at h
    split at h <;> simp at h
  | markup => cases h
  | element name attributes children =>
    rw [rendering] at h
    split_ifs at h with hequation hbreak hpre
    · exact ⟨hequation, (Inline.equation.inj (List.mem_singleton.1 h)).symm⟩
    · simp at h
    · obtain ⟨p, hp, hbare⟩ := List.mem_map.1 h
      obtain ⟨_, _, _, rfl⟩ := eq_text_of_mem_codePieces hp
      cases hbare
    · cases h

/-- In the outline of nodes stand only equations that are among them. -/
theorem isEquation_of_mem_content {nodes : List Node} (h : RowsApart nodes) {node : Node}
    (hmem : .equation node ∈ contentOfBlocks (blocks nodes)) : node ∈ Node.equations nodes := by
  obtain ⟨sources, hsublist, hcontent⟩ := (renders_blocks h).exists_sublist
  have hbare := List.mem_map_of_mem (f := Inline.bare) hmem
  rw [hcontent] at hbare
  obtain ⟨source, hsource, hrendering⟩ := List.mem_flatMap.1 hbare
  obtain ⟨hequation, rfl⟩ := eq_of_equation_mem_rendering hrendering
  exact List.mem_filter.2 ⟨(parts_reading nodes).mem (hsublist.subset hsource), hequation⟩

/-- Without equations no token is looked up. -/
theorem undisturbed_of_texts {s : Surroundings} {html : Text} {outline : List (Block Inline)}
    (houtline : Document.outline html = .ok outline) (hwritable : Writable (textsOf s outline))
    (htext : ∀ p ∈ contentOfBlocks outline, ∃ content look broken, p = .text content look broken) :
    Undisturbed (piecesOf s html) := by
  refine List.pairwise_of_forall_mem_list ?_
  rintro earlier - _ hlater ⟨item, rfl, -⟩
  have hmem := List.mem_map_of_mem (f := Piece.untokened) hlater
  rw [untokened_piecesOf houtline hwritable] at hmem
  obtain ⟨p, hp, hpiece⟩ := List.mem_map.1 hmem
  rcases mem_content_settledBlocks hp with rfl | ⟨hp, -⟩
  · cases hpiece
  · obtain ⟨_, _, _, rfl⟩ := htext p hp
    cases hpiece

/-! ### Plain pages -/

/-- No equation, list, table, preformatted text or rule, not of the class `katex-html`, and no line break with content. -/
structure IsPlain (node : Node) : Prop where
  equation : node.isEquation = false
  html : node.hasClass "katex-html" = false
  name : node.isOneOf ["ul", "ol", "table", "pre", "hr"] = false
  lineBreak : node.isNamed "br" = true → node.children = []

/-- A text or a line break. -/
def isWord (node : Node) : Bool := node.isText || node.isNamed "br"

section Plain

variable {name : Text} {attributes : List (Text × Text)} {children : List Node}

theorem isWord_element : isWord (.element name attributes children) = (name == "br") := by
  simp [isWord, Node.isText, Node.isNamed, Node.name?]

theorem filter_isWord_subtree (hname : name ≠ "br") : (Node.subtree (.element name attributes children)).filter isWord =
    (Node.subtrees children).filter isWord := by
  rw [subtree_element, List.filter_cons_of_neg (by simp [isWord_element, hname])]

mutual

theorem readInline_of_isPlain : ∀ node, (∀ inner ∈ Node.subtree node, IsPlain inner) →
    readInline node = (Node.subtree node).filter isWord
  | .text .., _ => rfl
  | .markup .., _ => rfl
  | .element name attributes children, h => by
    rw [subtree_element] at h
    obtain ⟨hself, hchildren⟩ := List.forall_mem_cons.1 h
    rw [readInline, if_neg (by simp [hself.equation]), if_neg (by simp [hself.html])]
    by_cases hname : name = "br"
    · have hnone : children = [] := hself.lineBreak (by simp [Node.isNamed, Node.name?, hname])
      rw [if_pos hname, subtree_element, hnone]
      simp [isWord_element, hname, Node.subtrees]
    · rw [if_neg hname, filter_isWord_subtree hname]
      exact readInlines_of_isPlain children hchildren

theorem readInlines_of_isPlain : ∀ nodes, (∀ inner ∈ Node.subtrees nodes, IsPlain inner) →
    readInlines nodes = (Node.subtrees nodes).filter isWord
  | [], _ => rfl
  | node :: rest, h => by
    obtain ⟨hnode, hrest⟩ := List.forall_mem_append.1 h
    rw [readInlines, subtrees_cons, List.filter_append, readInline_of_isPlain node hnode, readInlines_of_isPlain rest hrest]

end

mutual

theorem readBlock_of_isPlain (inHead : Bool) : ∀ node, isInline node = false → (∀ inner ∈ Node.subtree node, IsPlain inner) →
    readBlock inHead node = (Node.subtree node).filter isWord
  | .text .., hinline, _ => nomatch hinline
  | .markup .., _, _ => rfl
  | .element name attributes children, hinline, h => by
    rw [subtree_element] at h
    obtain ⟨hself, hchildren⟩ := List.forall_mem_cons.1 h
    have hblock : name ∈ blockNames := by simpa [isInline, hself.equation] using hinline
    have hbreak : name ≠ "br" := fun hname => absurd (hname ▸ hblock) (by decide)
    have hspecial : name ∉ (["ul", "ol", "table", "pre", "hr"] : List Text) :=
      fun hmem => Bool.eq_false_iff.1 hself.name (isOneOf_element.2 hmem)
    simp only [List.mem_cons, List.not_mem_nil, or_false, not_or] at hspecial
    obtain ⟨hul, hol, htable, hpre, hhr⟩ := hspecial
    rw [readBlock, if_neg (by simp [hself.equation, hpre]), if_neg (by simp [isList_element, hul, hol]), if_neg htable,
      if_neg hhr, filter_isWord_subtree hbreak]
    split
    · exact readInlines_of_isPlain children hchildren
    · exact readFlow_of_isPlain inHead children hchildren

/-- Of plain nodes all texts and line breaks are read, as they stand. -/
theorem readFlow_of_isPlain (inHead : Bool) : ∀ nodes, (∀ inner ∈ Node.subtrees nodes, IsPlain inner) →
    readFlow inHead nodes = (Node.subtrees nodes).filter isWord
  | [], _ => rfl
  | node :: rest, h => by
    obtain ⟨hnode, hrest⟩ := List.forall_mem_append.1 h
    rw [readFlow, subtrees_cons, List.filter_append, readFlow_of_isPlain inHead rest hrest]
    congr 1
    split
    · exact readInline_of_isPlain node hnode
    · next hinline => exact readBlock_of_isPlain inHead node (Bool.eq_false_iff.2 hinline) hnode

end

end Plain

/-! ### Documents -/

/--
The document of a page without equations shows what is read of the page, all of it and in the order of reading, unless the
page holds a text that cannot be written, and becomes no document. If the page is plain, this is every text and every
line break, in the order of the page.
-/
theorem create_unabridged {s : Surroundings} {html : Text} {page : List Node}
    (hpage : Node.parse ("<div>" ++ html ++ ("</div>" : Text)) = .ok page) (hplain : Node.equations page = [])
    (hrows : RowsApart (content page)) :
    (¬ Writable (textsOf s (blocks (content page))) ∧ (create s html).value = .error (.unwritable .forbiddenCharacter)) ∨
      ∃ shown : List (Block Inline),
        (create s html).value = .ok ⟨textOf (writeBlocks (·.finished s) shown), s.settings.mathFont⟩ ∧
        visible (contentOfBlocks shown) = visible ((reading (content page)).flatMap rendering) ∧
        ((∀ node ∈ Node.subtrees (content page), IsPlain node) → visible (contentOfBlocks shown) =
          visible (((Node.subtrees (content page)).filter isWord).flatMap rendering)) := by
  have houtline : outline html = .ok (blocks (content page)) := by
    rw [outline, hpage]
    rfl
  have htext : ∀ p ∈ contentOfBlocks (blocks (content page)), ∃ content look broken, p = .text content look broken := by
    intro p hp
    cases p with
    | text content look broken => exact ⟨_, _, _, rfl⟩
    | equation node =>
      obtain ⟨hmem, hequation⟩ := List.mem_filter.1 (isEquation_of_mem_content hrows hp)
      have hnone : node ∈ Node.equations page := List.mem_filter.2 ⟨subtrees_content_subset page hmem, hequation⟩
      rw [hplain] at hnone
      cases hnone
  by_cases hwritable : Writable (textsOf s (blocks (content page)))
  · have hshown : ∀ p ∈ contentOfBlocks (blocks (content page)), p.isShown s = true := by
      intro p hp
      obtain ⟨_, _, _, rfl⟩ := htext p hp
      rfl
    have hvisible := (visible_settledBlocks hshown).trans (renders_blocks hrows).visible_eq
    refine .inr ⟨settledBlocks s (blocks (content page)), ?_, hvisible, fun hplain => ?_⟩
    · exact create_eq_finished houtline hwritable (undisturbed_of_texts houtline hwritable htext)
    · rw [hvisible, reading, readFlow_of_isPlain false _ hplain]
  · exact .inl ⟨hwritable, create_eq_error houtline hwritable⟩

/-- A page whose outer list has text between an item and a list in it: the inner list is read after the text. -/
theorem create_unabridged_listed :
    let s : Surroundings := ⟨⟨fun _ => none, fun _ _ => none⟩, ⟨[], [], 8000, [], "Cambria Math", "Consolas", 5000, []⟩⟩
    let html : Text := "<ul><li>a<ul><li>b</ul>c</ul>"
    ∃ (page : List Node) (shown : List (Block Inline)), Node.parse ("<div>" ++ html ++ ("</div>" : Text)) = .ok page ∧
      Node.equations page = [] ∧ RowsApart (content page) ∧
      (create s html).value = .ok ⟨textOf (writeBlocks (·.finished s) shown), "Cambria Math"⟩ ∧
      visible (contentOfBlocks shown) = visible ((reading (content page)).flatMap rendering) := by
  intro s html
  have hpage : (Node.parse ("<div>" ++ html ++ ("</div>" : Text))).toOption.any (fun page =>
      (Node.equations page).isEmpty && decide (RowsApart (content page)) &&
        decide (Writable (textsOf s (blocks (content page))))) = true := by decide +kernel
  obtain ⟨page, hparse, htest⟩ := exists_ok_of_any hpage
  simp only [Bool.and_eq_true, decide_eq_true_eq, List.isEmpty_iff] at htest
  obtain ⟨⟨hplain, hrows⟩, hwritable⟩ := htest
  rcases create_unabridged hparse hplain hrows with ⟨hrefused, -⟩ | ⟨shown, hcreate, hvisible, -⟩
  · exact absurd hwritable hrefused
  · exact ⟨page, shown, hparse, hplain, hrows, hcreate, hvisible⟩

/-- The node is this very text. -/
def isPlainText : Node → Text → Bool
  | .text .plain content, expected => content == expected
  | _, _ => false

theorem eq_of_isPlainText {node : Node} {expected : Text} (h : isPlainText node expected = true) :
    node = .text .plain expected := by
  unfold isPlainText at h
  split at h
  · rw [beq_iff_eq.1 h]
  · cases h

/-- Text that stands in a list beside its items is not read: a text of the page is nowhere in the document. -/
theorem create_drops_loose :
    let s : Surroundings := ⟨⟨fun _ => none, fun _ _ => none⟩, ⟨[], [], 8000, [], "Cambria Math", "Consolas", 5000, []⟩⟩
    let html : Text := "<ul>note<li>item</li></ul>"
    ∃ (page : List Node) (document : Exported), Node.parse ("<div>" ++ html ++ ("</div>" : Text)) = .ok page ∧
      Node.equations page = [] ∧ Node.text .plain "note" ∈ Node.subtrees page ∧
      (create s html).value = .ok document ∧ ¬ Text.normalize "note" <:+: document.text := by
  intro s html
  have hpage : (Node.parse ("<div>" ++ html ++ ("</div>" : Text))).toOption.any (fun page =>
      (Node.equations page).isEmpty && (Node.subtrees page).any (isPlainText · "note")) = true := by decide +kernel
  have hdocument : (create s html).value.toOption.any (fun document => !document.text.contains (Text.normalize "note")) = true := by
    decide +kernel
  obtain ⟨page, hparse, htest⟩ := exists_ok_of_any hpage
  obtain ⟨document, hcreate, hnowhere⟩ := exists_ok_of_any hdocument
  rw [Bool.and_eq_true, List.isEmpty_iff, List.any_eq_true] at htest
  obtain ⟨hplain, node, hmem, hnode⟩ := htest
  refine ⟨page, document, hparse, hplain, ?_, hcreate, ?_⟩
  · rwa [eq_of_isPlainText hnode] at hmem
  · rw [← Text.contains_iff]
    simpa using hnowhere

end EquationExport.Document
