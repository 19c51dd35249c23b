import EquationExport.Proofs.Document.Finished
import EquationExport.Proofs.Document.Reading

/-!
# Displayed equations stand alone

In a sequence of nodes that is walked block by block, a block ends the paragraph in front of it and another paragraph
begins behind it. A displayed equation is such a block, and a division that holds a block is walked block by block
itself. So an equation that is set off stands in a centred paragraph of its own, whatever stands beside it and around it, as
long as only divisions are around it. A paragraph on the page is different: everything inside becomes one paragraph of the
document, and a displayed equation becomes a piece of it.
-/

namespace EquationExport.Document

open EquationExport.Html (Node)

/-! ### Flows -/

/-- A block ends the paragraph in front of it, and another one begins behind it. -/
theorem blocksFrom_append_cons {node : Node} (h : isInline node = false) (place : Place) (pending front back : List Node) :
    blocksFrom place pending (front ++ node :: back) =
      blocksFrom place pending front ++ block place node ++ blocksFrom place [] back := by
  induction front generalizing pending with
  | nil => simp only [List.nil_append, blocksFrom, h, Bool.false_eq_true, if_false]
  | cons first front ih =>
    rw [List.cons_append, blocksFrom, blocksFrom]
    split
    · exact ih _
    · simp only [ih, List.append_assoc]

section Elements

variable {name : Text} {attributes : List (Text × Text)} {children : List Node}
  (hequation : (Node.element name attributes []).isEquation = false)

/-- Whether an element is an equation does not depend on its content. -/
theorem isEquation_element :
    (Node.element name attributes children).isEquation = (Node.element name attributes []).isEquation := rfl

include hequation

theorem isInline_element : isInline (.element name attributes children) = decide (name ∉ blockNames) := by
  rw [isInline, isEquation_element, hequation]
  rfl

/-- A list is walked item by item. -/
theorem block_list (hname : name ∈ (["ul", "ol"] : List Text)) (place : Place) :
    block place (.element name attributes children) = items (name = "ol") 1 children := by
  have hlevel : headingLevel? (.element name attributes children) = none := by
    have hheadings : ∀ name ∈ (["ul", "ol"] : List Text), name ∉ (["h1", "h2", "h3", "h4", "h5", "h6"] : List Text) := by decide
    exact Option.not_isSome_iff_eq_none.1 (mt isSome_headingLevel?_iff.1 (hheadings name hname))
  simp only [block, isEquation_element, hequation, hlevel]
  simp only [List.mem_cons, List.not_mem_nil, or_false] at hname
  rcases hname with rfl | rfl <;> rfl

/-- A table is walked row by row. -/
theorem block_rows (hname : name = "table") (place : Place) :
    block place (.element name attributes children) = tableOf (rowsOf place.inHead children) := by
  subst hname
  have hheading : headingLevel? (.element "table" attributes children) = none := rfl
  simp only [block, isEquation_element, hequation, hheading]
  rfl

/-- Of preformatted text the text counts. -/
theorem block_code (hname : name = "pre") (place : Place) : block place (.element name attributes children) =
    [.ofContent .code (codePieces (codeLines (Node.element name attributes children).textContent))] := by
  subst hname
  have hheading : headingLevel? (.element "pre" attributes children) = none := rfl
  simp only [block, isEquation_element, hequation, hheading]
  rfl

/-- A rule becomes nothing. -/
theorem block_rule (hname : name = "hr") (place : Place) : block place (.element name attributes children) = [] := by
  subst hname
  have hheading : headingLevel? (.element "hr" attributes children) = none := rfl
  simp only [block, isEquation_element, hequation, hheading]
  rfl

/-- The elements that are walked in a way of their own. -/
def otherNames : List Text := ["ul", "ol", "table", "pre", "hr"]

/-- A block that is no paragraph is walked block by block. -/
theorem block_flow (hname : name ∉ otherNames) (hflow : isParagraph (.element name attributes children) = false) (place : Place) :
    block place (.element name attributes children) = blocksFrom place [] children := by
  simp only [otherNames, List.mem_cons, List.not_mem_nil, or_false, not_or] at hname
  obtain ⟨hul, hol, htable, hpre, hhr⟩ := hname
  rw [isParagraph, Bool.or_eq_false_iff, Bool.not_eq_false'] at hflow
  obtain ⟨hparagraph, hblock⟩ := hflow
  have hparagraph : name ∉ paragraphNames := fun h => Bool.eq_false_iff.1 hparagraph (isOneOf_element.2 h)
  have hlevel : headingLevel? (.element name attributes children) = none := by
    have hheadings : ∀ name ∈ (["h1", "h2", "h3", "h4", "h5", "h6"] : List Text), name ∈ paragraphNames := by decide
    exact Option.not_isSome_iff_eq_none.1 fun h => hparagraph (hheadings name (isSome_headingLevel?_iff.1 h))
  have hplain : ∀ other ∈ paragraphNames, name ≠ other := fun other h heq => hparagraph (heq ▸ h)
  have hp : name ≠ "p" := hplain _ (by decide)
  have hli : name ≠ "li" := hplain _ (by decide)
  have hquote : name ≠ "blockquote" := hplain _ (by decide)
  have hany : children.any (fun child => child.isElement && !isInline child) = true := hblock
  simp only [block, isEquation_element, hequation, hlevel, hul, hol, hli, htable, hpre, hquote, hhr, hp, hany]
  rfl

/-- A block that is a paragraph becomes one paragraph, laid out as its name tells. -/
theorem exists_block_paragraph (hname : name ∉ otherNames) (place : Place) : ∃ kind empty look, ∀ children,
    isParagraph (.element name attributes children) = true →
      block place (.element name attributes children) = [.paragraph ⟨kind, empty, inlinesOf look children⟩] := by
  simp only [otherNames, List.mem_cons, List.not_mem_nil, or_false, not_or] at hname
  obtain ⟨hul, hol, htable, hpre, hhr⟩ := hname
  cases hlevel : headingLevel? (.element name attributes []) with
  | some level =>
    refine ⟨.heading level, .leaveOut, .plain, fun children _ => ?_⟩
    have hlevel : headingLevel? (.element name attributes children) = some level := hlevel
    simp only [block, isEquation_element, hequation, hlevel]
    rfl
  | none =>
    have hlevel : ∀ children, headingLevel? (.element name attributes children) = none := fun _ => hlevel
    by_cases hli : name = "li"
    · subst hli
      refine ⟨.item false 1, .keep, .plain, fun children _ => ?_⟩
      simp only [block, isEquation_element, hequation, hlevel]
      rfl
    by_cases hquote : name = "blockquote"
    · subst hquote
      refine ⟨.quotation, .leaveOut, ⟨false, true, false⟩, fun children _ => ?_⟩
      simp only [block, isEquation_element, hequation, hlevel]
      rfl
    refine ⟨.body, .leaveOut, ⟨place.bold, false, false⟩, fun children hparagraph => ?_⟩
    have hlast : (name = "p" || !children.any fun child => child.isElement && !isInline child) = true := by
      rw [isParagraph, Bool.or_eq_true, isOneOf_element] at hparagraph
      rcases hparagraph with hmem | hnone
      · have hplain : name ∉ (["h1", "h2", "h3", "h4", "h5", "h6"] : List Text) :=
          fun h => by simpa [hlevel] using (isSome_headingLevel?_iff (a := attributes) (c := [])).2 h
        have hp : name = "p" := by simp_all [paragraphNames]
        rw [decide_eq_true hp, Bool.true_or]
      · rw [Bool.or_eq_true]
        exact .inr hnone
    simp only [block, isEquation_element, hequation, hlevel, hul, hol, hli, htable, hpre, hquote, hhr, hlast]
    rfl

/-- A division that holds a block is walked block by block. -/
theorem block_division (hname : name = "div")
    (hblock : children.any (fun child => child.isElement && !isInline child) = true) (place : Place) :
    block place (.element name attributes children) = blocksFrom place [] children := by
  subst hname
  have hname : ∀ names : List Text, ("div" : Text) ∉ names →
      (Node.element "div" attributes children).isOneOf names = false := fun names h => Bool.eq_false_iff.2 (mt isOneOf_element.1 h)
  refine block_flow hequation (by decide) ?_ place
  rw [isParagraph, hname paragraphNames (by decide), Bool.false_or, Bool.not_eq_false']
  exact hblock

/-- A paragraph becomes a paragraph. -/
theorem block_paragraph (hname : name = "p") (place : Place) :
    block place (.element name attributes children) = [.ofContent .body (inlinesOf ⟨place.bold, false, false⟩ children)] := by
  subst hname
  have hheading : headingLevel? (.element "p" attributes children) = none := rfl
  simp only [block, isEquation_element, hequation, hheading]
  rfl

end Elements

/-! ### Layers -/

/-- An element around something, with what stands beside it in front and behind. -/
structure Layer where
  name : Text
  attributes : List (Text × Text)
  front : List Node
  back : List Node

/-- Nodes inside some layers, the outermost first. -/
def enclosed (inner : List Node) : List Layer → List Node
  | [] => inner
  | layer :: layers => layer.front ++ .element layer.name layer.attributes (enclosed inner layers) :: layer.back

/-- A division or a paragraph, and no equation. -/
structure Layer.IsPlain (layer : Layer) : Prop where
  name : layer.name ∈ (["div", "p"] : List Text)
  equation : (Node.element layer.name layer.attributes []).isEquation = false

instance (layer : Layer) : Decidable layer.IsPlain :=
  decidable_of_iff (layer.name ∈ (["div", "p"] : List Text) ∧ (Node.element layer.name layer.attributes []).isEquation = false)
    ⟨fun h => ⟨h.1, h.2⟩, fun h => ⟨h.name, h.equation⟩⟩

theorem Layer.IsPlain.isInline {layer : Layer} (h : layer.IsPlain) (children : List Node) :
    Document.isInline (.element layer.name layer.attributes children) = false := by
  have hblocks : ∀ name ∈ (["div", "p"] : List Text), name ∈ blockNames := by decide
  rw [isInline_element h.equation]
  simpa using hblocks layer.name h.name

section Standing

variable (place : Place) (before after : List Node)

/-- The blocks in front of a node inside some layers, up to the paragraph that it stands in. -/
def leading : List Layer → List (Block Inline)
  | [] => blocksFrom place [] before
  | layer :: layers => blocksFrom place [] layer.front ++ if layer.name = "p" then [] else leading layers

/-- The blocks behind a node inside some layers, from the paragraph on that it stands in. -/
def trailing : List Layer → List (Block Inline)
  | [] => blocksFrom place [] after
  | layer :: layers => (if layer.name = "p" then [] else trailing layers) ++ blocksFrom place [] layer.back

/-- The paragraph that a displayed equation inside some layers stands in: its own, or the outermost one around it. -/
def host (node : Node) : List Layer → Paragraph Inline
  | [] => ⟨.display, .leaveOut, [.equation node]⟩
  | layer :: layers =>
    if layer.name = "p" then
      ⟨.body, .leaveOut, inlinesOf ⟨place.bold, false, false⟩ (enclosed (before ++ node :: after) layers)⟩
    else host node layers

variable {node : Node} (hequation : node.isEquation = true) (hdisplay : node.isDisplay = true)

theorem isElement_of_isEquation {node : Node} (h : node.isEquation = true) : ∃ name attributes children,
    node = .element name attributes children := by
  cases node with
  | element name attributes children => exact ⟨name, attributes, children, rfl⟩
  | text => cases h
  | markup => cases h

include hequation hdisplay

theorem isInline_display : isInline node = false := by
  obtain ⟨name, attributes, children, rfl⟩ := isElement_of_isEquation hequation
  rw [isInline, if_pos hequation, hdisplay]
  rfl

theorem block_display : block place node = [.ofContent .display [.equation node]] := by
  obtain ⟨name, attributes, children, rfl⟩ := isElement_of_isEquation hequation
  simp only [block, hequation, hdisplay, if_true]

/-- Whatever holds a displayed equation inside plain layers holds a block. -/
theorem any_block_enclosed {layers : List Layer} (hplain : ∀ layer ∈ layers, layer.IsPlain) :
    (enclosed (before ++ node :: after) layers).any (fun child => child.isElement && !isInline child) = true := by
  rw [List.any_eq_true]
  cases layers with
  | nil =>
    refine ⟨node, by simp [enclosed], ?_⟩
    obtain ⟨name, attributes, children, heq⟩ := isElement_of_isEquation hequation
    rw [isInline_display hequation hdisplay, heq]
    rfl
  | cons layer layers =>
    refine ⟨_, List.mem_append_right _ List.mem_cons_self, ?_⟩
    rw [(hplain layer List.mem_cons_self).isInline]
    rfl

/-- The blocks of a page around the paragraph that a displayed equation stands in. -/
theorem blocksFrom_enclosed {layers : List Layer} (hplain : ∀ layer ∈ layers, layer.IsPlain) :
    blocksFrom place [] (enclosed (before ++ node :: after) layers) =
      leading place before layers ++ .paragraph (host place before after node layers) :: trailing place after layers := by
  induction layers with
  | nil =>
    rw [enclosed, blocksFrom_append_cons (isInline_display hequation hdisplay), block_display place hequation hdisplay,
      List.append_assoc]
    rfl
  | cons layer layers ih =>
    obtain ⟨hlayer, hlayers⟩ := List.forall_mem_cons.1 hplain
    rw [enclosed, blocksFrom_append_cons (hlayer.isInline _), leading, trailing, host]
    by_cases hparagraph : layer.name = "p"
    · simp only [if_pos hparagraph, block_paragraph hlayer.equation hparagraph, List.append_nil, List.nil_append,
        List.append_assoc, List.singleton_append]
      rfl
    · have hdivision : layer.name = "div" := by simpa [hparagraph] using hlayer.name
      simp only [if_neg hparagraph, List.append_assoc, List.cons_append, ih hlayers,
        block_division hlayer.equation hdivision (any_block_enclosed before after hequation hdisplay hlayers)]

end Standing

/-! ### Paragraphs of their own -/

/-- A paragraph of the kind is written with its text in the centre. -/
def ParagraphKind.IsCentred (kind : ParagraphKind) : Prop := empty "jc" [("val", "center")] <:+: kind.layout

theorem isCentred_iff {kind : ParagraphKind} : kind.IsCentred ↔ kind = .display := by
  have hspace : ¬ empty "jc" [("val", "center")] <:+: empty "spacing" [("after", "160")] := by decide
  have hquotation : ¬ empty "jc" [("val", "center")] <:+: ParagraphKind.quotation.layout := by decide
  have hcode : ¬ empty "jc" [("val", "center")] <:+: ParagraphKind.code.layout := by decide +kernel
  have hdisplay : empty "jc" [("val", "center")] <:+: ParagraphKind.display.layout := by decide
  cases kind with
  | body => exact iff_of_false hspace (by simp)
  | heading level => exact iff_of_false hspace (by simp)
  | item ordered depth => exact iff_of_false hspace (by simp)
  | quotation => exact iff_of_false hquotation (by simp)
  | display => exact iff_of_true hdisplay rfl
  | code => exact iff_of_false hcode (by simp)

/-- The paragraph around a displayed equation is its own, and centred, if no paragraph of the page is around it. -/
theorem host_alone_iff {layers : List Layer} (hplain : ∀ layer ∈ layers, layer.IsPlain) (place : Place)
    (before after : List Node) (node : Node) :
    (host place before after node layers).content = [.equation node] ∧ (host place before after node layers).kind.IsCentred ↔
      ∀ layer ∈ layers, layer.name = "div" := by
  rw [isCentred_iff]
  induction layers with
  | nil => exact iff_of_true ⟨rfl, rfl⟩ fun _ h => absurd h List.not_mem_nil
  | cons layer layers ih =>
    obtain ⟨hlayer, hlayers⟩ := List.forall_mem_cons.1 hplain
    rw [List.forall_mem_cons, host]
    by_cases hparagraph : layer.name = "p"
    · rw [if_pos hparagraph, hparagraph]
      exact iff_of_false (fun h => nomatch h.2) fun h => absurd h.1 (by decide)
    · have hdivision : layer.name = "div" := by simpa [hparagraph] using hlayer.name
      rw [if_neg hparagraph, ih hlayers, and_iff_right hdivision]

theorem host_eq_of_divisions {layers : List Layer} (hdivisions : ∀ layer ∈ layers, layer.name = "div") (place : Place)
    (before after : List Node) (node : Node) :
    host place before after node layers = ⟨.display, .leaveOut, [.equation node]⟩ := by
  induction layers with
  | nil => rfl
  | cons layer layers ih =>
    obtain ⟨hlayer, hlayers⟩ := List.forall_mem_cons.1 hdivisions
    rw [host, hlayer, if_neg (by decide), ih hlayers]

/-- What becomes of a paragraph of one equation: a paragraph of one piece, or nothing. -/
theorem mapBlocks_settled_display (s : Surroundings) (node : Node) :
    mapBlocks (·.piece s) (settledBlock s (.paragraph ⟨.display, .leaveOut, [.equation node]⟩)) =
      (Inline.pieces s (.equation node)).map fun piece => .paragraph ⟨.display, .leaveOut, [piece]⟩ := by
  rw [settledBlock, Paragraph.settled, Inline.pieces]
  by_cases hshown : Inline.isShown s (.equation node) = true
  · simp [hshown, mapBlocks, Block.map, Paragraph.map]
  · simp [hshown, mapBlocks]

/--
A displayed equation inside divisions and paragraphs of a page. The blocks of the page are those in front of it, the
paragraph that it stands in and those behind it, and the paragraph is its own and centred exactly if all elements around it
are divisions. Then its run, be it a token or its source, is alone in a centred paragraph of the document, between
what becomes of the blocks in front and of those behind.
-/
theorem display_alone_iff {layers : List Layer} (hplain : ∀ layer ∈ layers, layer.IsPlain) {node : Node}
    (hequation : node.isEquation = true) (hdisplay : node.isDisplay = true) (before after : List Node) :
    let nodes := enclosed (before ++ node :: after) layers
    let front := leading ⟨false, false⟩ before layers
    let paragraph := host ⟨false, false⟩ before after node layers
    let back := trailing ⟨false, false⟩ after layers
    blocks nodes = front ++ .paragraph paragraph :: back ∧
      (paragraph.content = [.equation node] ∧ paragraph.kind.IsCentred ↔ ∀ layer ∈ layers, layer.name = "div") ∧
      ((∀ layer ∈ layers, layer.name = "div") → ∀ s composed registry,
        (compose s (blocks nodes)).value = .ok (composed, registry) → ∃ first alone last, composed = first ++ alone ++ last ∧
          mapBlocks Piece.untokened first = mapBlocks (·.piece s) (settledBlocks s front) ∧
          mapBlocks Piece.untokened alone =
            (Inline.pieces s (.equation node)).map (fun piece => .paragraph ⟨.display, .leaveOut, [piece]⟩) ∧
          mapBlocks Piece.untokened last = mapBlocks (·.piece s) (settledBlocks s back)) := by
  intro nodes front paragraph back
  have hblocks : blocks nodes = front ++ .paragraph paragraph :: back :=
    blocksFrom_enclosed ⟨false, false⟩ before after hequation hdisplay hplain
  refine ⟨hblocks, host_alone_iff hplain _ before after node, fun hdivisions s composed registry hcompose => ?_⟩
  have hpieces := untokened_of_compose hcompose
  have halone : paragraph = ⟨.display, .leaveOut, [.equation node]⟩ := host_eq_of_divisions hdivisions _ before after node
  rw [hblocks, halone, settledBlocks_append, settledBlocks, mapBlocks_append, mapBlocks_append, mapBlocks_settled_display,
    mapBlocks_eq_map Piece.untokened, ← List.append_assoc, List.map_eq_append_iff] at hpieces
  obtain ⟨rest, last, rfl, hrest, hlast⟩ := hpieces
  obtain ⟨first, alone, rfl, hfirst, halone⟩ := List.map_eq_append_iff.1 hrest
  exact ⟨first, alone, last, rfl, by rw [mapBlocks_eq_map, hfirst], by rw [mapBlocks_eq_map, halone],
    by rw [mapBlocks_eq_map, hlast]⟩

/-- A displayed equation with text on both sides, two divisions deep: its run is alone in its paragraph. -/
theorem display_alone_deep :
    let s : Surroundings := ⟨⟨fun _ => some "<m:r><m:t>x</m:t></m:r>", fun _ _ => none⟩,
      ⟨[], [], 8000, [], "Cambria Math", "Consolas", 5000, []⟩⟩
    let node : Node := .element "span" [("class", "katex-display")] [.element "math" [] [.text .plain "x"]]
    let layers : List Layer := [⟨"div", [], [.text .plain "a"], []⟩, ⟨"div", [], [], [.text .plain "b"]⟩]
    ∃ first piece last registry, (compose s (blocks (enclosed [.text .plain "c", node, .text .plain "d"] layers))).value =
      .ok (first ++ .paragraph ⟨.display, .leaveOut, [piece]⟩ :: last, registry) := by
  intro s node layers
  have hcomposed : (compose s (blocks (enclosed [.text .plain "c", node, .text .plain "d"] layers))).value.toOption.any
      (fun _ => true) = true := by decide +kernel
  have hshown : Inline.pieces s (.equation node) = [Inline.piece s (.equation node)] :=
    if_pos (show Inline.isShown s (.equation node) = true by decide +kernel)
  obtain ⟨⟨composed, registry⟩, hcompose, -⟩ := exists_ok_of_any hcomposed
  have hplain : ∀ layer ∈ layers, layer.IsPlain := by decide
  have hequation : node.isEquation = true := by decide
  obtain ⟨-, -, halone⟩ := display_alone_iff hplain hequation (by decide) [.text .plain "c"] [.text .plain "d"]
  obtain ⟨first, alone, last, rfl, -, hpieces, -⟩ := halone (by decide) s composed registry hcompose
  rw [hshown, mapBlocks_eq_map, List.map_singleton, List.map_eq_singleton_iff] at hpieces
  obtain ⟨block, rfl, hblock⟩ := hpieces
  cases block with
  | table => cases hblock
  | paragraph p =>
    obtain ⟨kind, whenEmpty, content⟩ := p
    simp only [Block.map, Paragraph.map, Block.paragraph.injEq, Paragraph.mk.injEq, List.map_eq_singleton_iff] at hblock
    obtain ⟨rfl, rfl, piece, rfl, -⟩ := hblock
    exact ⟨first, piece, last, registry, by rw [hcompose, List.append_assoc]; rfl⟩

/-- The nodes are a paragraph around a displayed equation. -/
def holdsDisplay : List Node → Bool
  | [.element name [] [node]] => name == "p" && (node.isEquation && node.isDisplay)
  | _ => false

theorem exists_of_holdsDisplay {nodes : List Node} (h : holdsDisplay nodes = true) :
    ∃ node, nodes = enclosed [node] [⟨"p", [], [], []⟩] ∧ node.isEquation = true ∧ node.isDisplay = true := by
  unfold holdsDisplay at h
  split at h
  · next name node =>
    simp only [Bool.and_eq_true, beq_iff_eq] at h
    obtain ⟨rfl, hequation, hdisplay⟩ := h
    exact ⟨node, rfl, hequation, hdisplay⟩
  · cases h

/-- The kinds of the paragraphs among some blocks. -/
def kindsOf {α : Type} (blocks : List (Block α)) : List ParagraphKind :=
  blocks.filterMap fun
    | .paragraph p => some p.kind
    | .table _ => none

/-- A displayed equation in a paragraph of the page, with nothing beside it: its paragraph in the document is not centred. -/
theorem display_in_paragraph :
    let s : Surroundings := ⟨⟨fun _ => some "<m:oMath><m:r><m:t>x</m:t></m:r></m:oMath>", fun _ _ => none⟩,
      ⟨[], [], 8000, [], "Cambria Math", "Consolas", 5000, []⟩⟩
    let html : Text := "<p><span class=\"katex-display\"><math display=\"block\"><mi>x</mi></math></span></p>"
    ∃ (page : List Node) (node : Node) (composed : List (Block Piece)) (registry : Registry),
      Node.parse ("<div>" ++ html ++ ("</div>" : Text)) = .ok page ∧ content page = enclosed [node] [⟨"p", [], [], []⟩] ∧
      node.isEquation = true ∧ node.isDisplay = true ∧ (compose s (blocks (content page))).value = .ok (composed, registry) ∧
      registry.replacements.length = 1 ∧ kindsOf composed = [.body] ∧ ¬ ParagraphKind.body.IsCentred := by
  intro s html
  have hpage : (Node.parse ("<div>" ++ html ++ ("</div>" : Text))).toOption.any (fun page => holdsDisplay (content page) &&
      (compose s (blocks (content page))).value.toOption.any
        fun found => found.2.replacements.length == 1 && kindsOf found.1 == [.body]) = true := by decide +kernel
  obtain ⟨page, hparse, htest⟩ := exists_ok_of_any hpage
  obtain ⟨hholds, hvalue⟩ := Bool.and_eq_true_iff.1 htest
  obtain ⟨node, hcontent, hequation, hdisplay⟩ := exists_of_holdsDisplay hholds
  obtain ⟨⟨composed, registry⟩, hcompose, hfound⟩ := exists_ok_of_any hvalue
  rw [Bool.and_eq_true, beq_iff_eq, beq_iff_eq] at hfound
  exact ⟨page, node, composed, registry, hparse, hcontent, hequation, hdisplay, hcompose, hfound.1, hfound.2,
    mt isCentred_iff.1 (by decide)⟩

end EquationExport.Document
