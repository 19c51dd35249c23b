import EquationExport.Proofs.Document.Grid
import EquationExport.Proofs.Document.Listing
import EquationExport.Proofs.Document.Provenance

/-!
# The header of a table is in bold

A cell of the header becomes the blocks that it would become in another row, with the text of body paragraphs in bold. The
paragraphs of other kinds are the same in both: the text of a heading, of an item of a list and of a quotation in the
header is in bold only if it is so on the page. The source of an equation that cannot be converted never is.
-/

namespace EquationExport.Document

open EquationExport.Html (Node)

/-! ### In bold -/

/-- A piece with its text in bold; a line break has no text. -/
def Inline.embolden : Inline → Inline
  | .text content look broken => .text content { look with bold := look.bold || !content.isEmpty } broken
  | .equation node => .equation node

/-- A block with its text in bold if it is a body paragraph. -/
def Block.embolden : Block Inline → Block Inline
  | .paragraph p => .paragraph (if p.kind = .body then p.map Inline.embolden else p)
  | .table rows => .table rows

mutual

theorem inlines_bold (look : Look) : ∀ node, inlines { look with bold := true } node = (inlines look node).map Inline.embolden
  | .text kind content => by
    rw [inlines, inlines]
    by_cases hnone : content.normalize.isEmpty
    · simp [hnone]
    · simp [hnone, Inline.embolden]
  | .markup .. => rfl
  | .element name attributes children => by
    rw [inlines, inlines]
    split_ifs
    · rfl
    · rfl
    · rfl
    · exact inlinesOf_bold (look.inside name) children

/-- In bold, nodes give the same pieces, their text in bold. -/
theorem inlinesOf_bold (look : Look) :
    ∀ nodes, inlinesOf { look with bold := true } nodes = (inlinesOf look nodes).map Inline.embolden
  | [] => rfl
  | node :: rest => by rw [inlinesOf, inlinesOf, List.map_append, inlines_bold look node, inlinesOf_bold look rest]

end

theorem embolden_body (nodes : List Node) : (Block.ofContent .body (inlinesOf .plain nodes)).embolden =
    .ofContent .body (inlinesOf ⟨true, false, false⟩ nodes) :=
  congrArg (Block.ofContent .body) (inlinesOf_bold .plain nodes).symm

theorem shared_bold (nodes : List Node) : shared true nodes = (shared false nodes).map Block.embolden := by
  rw [shared, shared]
  split
  · exact congrArg ([·]) (embolden_body nodes).symm
  · rfl

theorem map_embolden_items (name : Text) (hname : name ∈ (["ul", "ol"] : List Text)) (attributes : List (Text × Text))
    (children : List Node) : (items (name = "ol") 1 children).map Block.embolden = items (name = "ol") 1 children := by
  rw [items_eq_itemsOf hname attributes, List.map_map]
  rfl

theorem map_embolden_tableOf (rows : List Row) : (tableOf rows).map Block.embolden = tableOf rows := by
  rw [tableOf]
  cases rows[headerIndex rows]? <;> rfl

mutual

theorem block_bold (inHead : Bool) : ∀ node, block ⟨true, inHead⟩ node = (block ⟨false, inHead⟩ node).map Block.embolden
  | .text .. => rfl
  | .markup .. => rfl
  | .element name attributes children => by
    rw [block, block]
    by_cases hequation : (Node.element name attributes children).isEquation = true
    · rw [if_pos hequation, if_pos hequation]
      split <;> rfl
    rw [if_neg hequation, if_neg hequation]
    cases headingLevel? (.element name attributes children) with
    | some level => rfl
    | none =>
      dsimp only
      split_ifs with hul hol
      · subst hul
        exact (map_embolden_items "ul" (by decide) attributes children).symm
      · subst hol
        exact (map_embolden_items "ol" (by decide) attributes children).symm
      · rfl
      · exact (map_embolden_tableOf _).symm
      · rfl
      · rfl
      · rfl
      · exact congrArg ([·]) (embolden_body children).symm
      · exact blocksFrom_bold inHead children []

/-- In bold, nodes give the same blocks, with their body paragraphs in bold. -/
theorem blocksFrom_bold (inHead : Bool) : ∀ nodes pending : List Node,
    blocksFrom ⟨true, inHead⟩ pending nodes = (blocksFrom ⟨false, inHead⟩ pending nodes).map Block.embolden
  | [], pending => by
    rw [blocksFrom, blocksFrom]
    exact shared_bold pending
  | node :: rest, pending => by
    rw [blocksFrom, blocksFrom]
    split
    · exact blocksFrom_bold inHead rest (pending ++ [node])
    · rw [List.map_append, List.map_append, block_bold inHead node, blocksFrom_bold inHead rest [], shared_bold pending]

end

/-- A cell of the header has the blocks that it would have in another row, with body paragraphs in bold. -/
theorem cellAt_bold (row : Bool × Node) (column : Nat) :
    cellAt true row column = (cellAt false row column).map Block.embolden := by
  rw [cellAt, cellAt]
  cases (cellsOf row.2)[column]? with
  | none => rfl
  | some cell => exact blocksFrom_bold row.1 cell.children []

/-! ### Text in bold -/

/-- The run of a piece with text. -/
def Piece.textRun? : Piece → Option Run
  | .run r => if r.content.isEmpty then none else some r
  | .equation _ => none

/-- The runs with text in the paragraphs among some blocks, but for those of code. Tables are not looked into. -/
def textRuns (blocks : List (Block Piece)) : List Run :=
  blocks.flatMap fun
    | .paragraph p => if p.kind = .code then [] else p.content.filterMap Piece.textRun?
    | .table _ => []

theorem textRuns_append (blocks more : List (Block Piece)) : textRuns (blocks ++ more) = textRuns blocks ++ textRuns more :=
  List.flatMap_append

theorem textRuns_untokened (blocks : List (Block Piece)) : textRuns (mapBlocks Piece.untokened blocks) = textRuns blocks := by
  have hpiece : ∀ piece : Piece, piece.untokened.textRun? = piece.textRun? := fun piece => by cases piece <;> rfl
  rw [mapBlocks_eq_map, textRuns, textRuns, List.flatMap_map]
  refine List.flatMap_congr fun block _ => ?_
  cases block with
  | table => rfl
  | paragraph p => simp only [Block.map, Paragraph.map, List.filterMap_map, Function.comp_def, hpiece]

section Bold

variable (s : Surroundings)

/-- No text that is not in bold comes of the piece. -/
def Inline.isBold : Inline → Bool
  | .text content look _ => look.bold || content.isEmpty
  | .equation node => (s.markup? node).isSome || (s.fallback node).isEmpty

/-- The piece is text. -/
def Inline.isRunning : Inline → Bool
  | .text .. => true
  | .equation _ => false

theorem isBold_embolden (p : Inline) : p.embolden.isBold s = (p.isRunning || p.isBold s) := by
  cases p with
  | text content look broken =>
    show (look.bold || !content.isEmpty || content.isEmpty) = true
    rw [Bool.or_assoc, Bool.not_or_self, Bool.or_true]
  | equation node => rfl

/-- The text that comes of a piece is in bold. -/
theorem forall_textRun_iff (p : Inline) :
    (∀ r ∈ (p.pieces s).filterMap Piece.textRun?, r.bold = true) ↔ p.isBold s = true := by
  cases p with
  | text content look broken =>
    have hpieces : Inline.pieces s (.text content look broken) = [.run (s.run content look broken)] := rfl
    rw [hpieces]
    by_cases hcontent : content.isEmpty <;> simp [Piece.textRun?, Surroundings.run, Inline.isBold, hcontent]
  | equation node =>
    cases hmarkup : s.markup? node with
    | some omml => simp [Inline.pieces, Inline.isShown, Inline.piece, Inline.isBold, Piece.textRun?, hmarkup]
    | none =>
      by_cases hsource : (s.fallback node).isEmpty <;>
        simp [Inline.pieces, Inline.isShown, Inline.piece, Inline.isBold, Piece.textRun?, Surroundings.run, hmarkup, hsource]

theorem textRuns_settledBlock_paragraph (p : Paragraph Inline) :
    textRuns (mapBlocks (·.piece s) (settledBlock s (.paragraph p))) =
      if p.kind = .code then [] else (p.content.flatMap (·.pieces s)).filterMap Piece.textRun? := by
  rw [settledBlock, Paragraph.settled, flatMap_pieces]
  by_cases hnone : (p.content.filter (·.isShown s)).isEmpty
  · rw [if_pos hnone, List.isEmpty_iff.1 hnone]
    cases p.whenEmpty <;> simp [textRuns, mapBlocks, Block.map, Paragraph.map, Inline.piece, Piece.textRun?, Surroundings.run]
  · rw [if_neg hnone]
    simp [textRuns, mapBlocks, Block.map, Paragraph.map]

/-- The text that comes of a paragraph is in bold. -/
theorem forall_textRuns_paragraph_iff (p : Paragraph Inline) :
    (∀ r ∈ textRuns (mapBlocks (·.piece s) (settledBlock s (.paragraph p))), r.bold = true) ↔
      (p.kind ≠ .code → ∀ q ∈ p.content, q.isBold s = true) := by
  rw [textRuns_settledBlock_paragraph]
  by_cases hcode : p.kind = .code
  · simp [hcode]
  · rw [if_neg hcode, List.filterMap_flatMap, forall_prop_of_true hcode]
    simp only [List.forall_mem_flatMap, forall_textRun_iff]

/-- The text that comes of some blocks is in bold, tables apart. -/
theorem forall_textRuns_iff (blocks : List (Block Inline)) :
    (∀ r ∈ textRuns (mapBlocks (·.piece s) (settledBlocks s blocks)), r.bold = true) ↔
      ∀ p, .paragraph p ∈ blocks → p.kind ≠ .code → ∀ q ∈ p.content, q.isBold s = true := by
  induction blocks with
  | nil => exact iff_of_true (List.forall_mem_nil _) fun _ h => absurd h List.not_mem_nil
  | cons block rest ih =>
    rw [settledBlocks, mapBlocks_append, textRuns_append, List.forall_mem_append, ih]
    cases block with
    | table rows =>
      refine (and_iff_right (List.forall_mem_nil _)).trans ?_
      simp only [List.mem_cons, reduceCtorEq, false_or]
    | paragraph p =>
      rw [forall_textRuns_paragraph_iff]
      simp only [List.mem_cons, Block.paragraph.injEq, forall_eq_or_imp]

/--
The text of some blocks is in bold in the header: text outside body paragraphs is in bold by itself, and no equation shows
its source. Code counts as no text.
-/
def BoldInHeader (blocks : List (Block Inline)) : Prop :=
  ∀ p, .paragraph p ∈ blocks → p.kind ≠ .code → ∀ q ∈ p.content, q.isBold s = true ∨ p.kind = .body ∧ q.isRunning = true

theorem forall_textRuns_embolden_iff (blocks : List (Block Inline)) :
    (∀ r ∈ textRuns (mapBlocks (·.piece s) (settledBlocks s (blocks.map Block.embolden))), r.bold = true) ↔
      BoldInHeader s blocks := by
  have hbody : ∀ p : Paragraph Inline, (∀ q ∈ (p.map Inline.embolden).content, q.isBold s = true) ↔
      ∀ q ∈ p.content, q.isBold s = true ∨ q.isRunning = true := by
    intro p
    simp only [Paragraph.map, List.forall_mem_map, isBold_embolden, Bool.or_eq_true, or_comm]
  rw [forall_textRuns_iff, BoldInHeader]
  constructor
  · intro h p hp hcode q hq
    have hmem := List.mem_map_of_mem (f := Block.embolden) hp
    by_cases hkind : p.kind = .body
    · rw [Block.embolden, if_pos hkind] at hmem
      simpa [hkind] using (hbody p).1 (h _ hmem hcode) q hq
    · rw [Block.embolden, if_neg hkind] at hmem
      exact .inl (h p hmem hcode q hq)
  · intro h p hp hcode
    obtain ⟨block, hblock, hembolden⟩ := List.mem_map.1 hp
    cases block with
    | table => cases hembolden
    | paragraph found =>
      rw [Block.embolden, Block.paragraph.injEq] at hembolden
      subst hembolden
      by_cases hkind : found.kind = .body
      · rw [if_pos hkind] at hcode ⊢
        exact (hbody found).2 fun q hq => (h found hblock hcode q hq).imp_right (·.2)
      · rw [if_neg hkind] at hcode ⊢
        exact fun q hq => (h found hblock hcode q hq).resolve_right fun hrunning => hkind hrunning.1

end Bold

namespace BoldInHeader

variable {s : Surroundings} {blocks more : List (Block Inline)}

theorem nil : BoldInHeader s [] := fun _ hp => absurd hp List.not_mem_nil

theorem append (h : BoldInHeader s blocks) (hmore : BoldInHeader s more) : BoldInHeader s (blocks ++ more) :=
  fun p hp => (List.mem_append.1 hp).elim (h p) (hmore p)

theorem paragraph {p : Paragraph Inline}
    (h : p.kind ≠ .code → ∀ q ∈ p.content, q.isBold s = true ∨ p.kind = .body ∧ q.isRunning = true) :
    BoldInHeader s [.paragraph p] := by
  intro found hfound
  obtain rfl := Block.paragraph.inj (List.mem_singleton.1 hfound)
  exact h

theorem table (rows : List Row) : BoldInHeader s (tableOf rows) := by
  rw [tableOf]
  cases rows[headerIndex rows]? with
  | none => exact nil
  | some row =>
    intro p hp
    cases List.mem_singleton.1 hp

end BoldInHeader

/-! ### Cells without headings, lists and quotations -/

/-- The elements whose text is put in bold by no header. -/
def unboldNames : List Text := ["h1", "h2", "h3", "h4", "h5", "h6", "ul", "ol", "li", "blockquote"]

/-- The node takes the bold of a header: it is no heading, list or quotation, nor an equation that cannot be converted. -/
def TakesBold (s : Surroundings) (node : Node) : Prop :=
  node.isOneOf unboldNames = false ∧ (node.isEquation = true → (s.markup? node).isSome)

instance (s : Surroundings) (node : Node) : Decidable (TakesBold s node) :=
  inferInstanceAs (Decidable (_ = false ∧ (_ = true → _)))

section TakesBold

variable {s : Surroundings}

theorem isBold_equation {node : Node} (h : TakesBold s node) (hequation : node.isEquation = true) :
    Inline.isBold s (.equation node) = true := by
  rw [Inline.isBold, h.2 hequation, Bool.true_or]

mutual

theorem isBold_or_isRunning_inline (look : Look) : ∀ node, Within (TakesBold s) [node] →
    ∀ q ∈ inlines look node, q.isBold s = true ∨ q.isRunning = true
  | .text kind content, _ => by
    rw [inlines]
    split
    · exact List.forall_mem_nil _
    · exact List.forall_mem_singleton.2 (.inr rfl)
  | .markup .., _ => List.forall_mem_nil _
  | .element name attributes children, h => by
    rw [inlines]
    split_ifs with hequation
    · exact List.forall_mem_singleton.2 (.inl (isBold_equation h.self hequation))
    · exact List.forall_mem_nil _
    · exact List.forall_mem_singleton.2 (.inr rfl)
    · exact isBold_or_isRunning_inlines (look.inside name) children h.children

theorem isBold_or_isRunning_inlines (look : Look) : ∀ nodes, Within (TakesBold s) nodes →
    ∀ q ∈ inlinesOf look nodes, q.isBold s = true ∨ q.isRunning = true
  | [], _ => List.forall_mem_nil _
  | node :: rest, h => by
    obtain ⟨hnode, hrest⟩ := within_cons.1 h
    rw [inlinesOf]
    exact List.forall_mem_append.2 ⟨isBold_or_isRunning_inline look node hnode, isBold_or_isRunning_inlines look rest hrest⟩

end

theorem boldInHeader_body (look : Look) {nodes : List Node} (h : Within (TakesBold s) nodes) :
    BoldInHeader s [.ofContent .body (inlinesOf look nodes)] :=
  .paragraph fun _ q hq => (isBold_or_isRunning_inlines look nodes h q hq).imp_right fun hrunning => ⟨rfl, hrunning⟩

theorem boldInHeader_shared (bold : Bool) {nodes : List Node} (h : Within (TakesBold s) nodes) :
    BoldInHeader s (shared bold nodes) := by
  rw [shared]
  split
  · exact boldInHeader_body _ h
  · exact .nil

mutual

theorem boldInHeader_block (place : Place) : ∀ node, Within (TakesBold s) [node] → BoldInHeader s (block place node)
  | .text .., _ => .nil
  | .markup .., _ => .nil
  | .element name attributes children, h => by
    have hname : name ∉ unboldNames := fun hmem => Bool.eq_false_iff.1 h.self.1 (isOneOf_element.2 hmem)
    have hlevel : headingLevel? (.element name attributes children) = none := by
      have hheadings : ∀ name ∈ (["h1", "h2", "h3", "h4", "h5", "h6"] : List Text), name ∈ unboldNames := by decide
      exact Option.not_isSome_iff_eq_none.1 fun hsome => hname (hheadings name (isSome_headingLevel?_iff.1 hsome))
    simp only [unboldNames, List.mem_cons, List.not_mem_nil, or_false, not_or] at hname
    obtain ⟨-, -, -, -, -, -, hul, hol, hli, hquote⟩ := hname
    rw [block, hlevel]
    by_cases hequation : (Node.element name attributes children).isEquation = true
    · rw [if_pos hequation]
      exact .paragraph fun _ => List.forall_mem_singleton.2 (.inl (isBold_equation h.self hequation))
    rw [if_neg hequation]
    dsimp only
    rw [if_neg hul, if_neg hol, if_neg hli]
    split_ifs
    · exact .table _
    · exact .paragraph fun hcode => absurd rfl hcode
    · exact .nil
    · exact boldInHeader_body _ h.children
    · exact boldInHeader_flow place children [] h.children .nil

/-- The header puts all text of a cell in bold if all nodes in the cell take it. -/
theorem boldInHeader_flow (place : Place) : ∀ nodes pending : List Node, Within (TakesBold s) nodes →
    Within (TakesBold s) pending → BoldInHeader s (blocksFrom place pending nodes)
  | [], pending, _, hpending => by
    rw [blocksFrom]
    exact boldInHeader_shared place.bold hpending
  | node :: rest, pending, h, hpending => by
    obtain ⟨hnode, hrest⟩ := within_cons.1 h
    rw [blocksFrom]
    split
    · exact boldInHeader_flow place rest (pending ++ [node]) hrest (hpending.append hnode)
    · exact ((boldInHeader_shared place.bold hpending).append (boldInHeader_block place node hnode)).append
        (boldInHeader_flow place rest [] hrest .nil)

end

end TakesBold

/-! ### The header of a table -/

/--
The header of a table of a page with at least one row of its own, be it the first row in a head or else the first of all. Its
cells hold the blocks that they would hold in another row, with the text of body paragraphs in bold. In the document, unless a
text in it cannot be written, all text in a cell of the header is in bold exactly if in the paragraphs of the cell that are
headings, items or quotations it is in bold by itself, and no equation shows its source. So it is if the cell on the page
holds no such elements and all equations in it can be converted.
-/
theorem header_bold_iff (place : Place) {attributes : List (Text × Text)} {children : List Node}
    (hequation : (Node.element "table" attributes []).isEquation = false) (hrows : ownRows place.inHead children ≠ []) :
    let rows := ownRows place.inHead children
    ∃ header others, headerFirst (·.1) rows = header :: others ∧
      block place (.element "table" attributes children) = [.table (gridOf rows)] ∧
      (∀ column, cellAt true header column = (cellAt false header column).map Block.embolden) ∧
      (∀ s, Yields (composeBlock s (.table (gridOf rows))) ((contentOfRows (gridOf rows)).flatMap (·.texts s))
        ((contentOfRows (gridOf rows)).flatMap (·.calls s)) fun blocks => ∃ first rest, blocks = [.table (first :: rest)] ∧
          first.length = columnsOf rows ∧ ∀ column cell, first[column]? = some cell →
            ((∀ run ∈ textRuns cell, run.bold = true) ↔ BoldInHeader s (cellAt false header column))) ∧
      ∀ s column, (∀ cell ∈ (cellsOf header.2)[column]?, ∀ node ∈ Node.subtrees cell.children, TakesBold s node) →
        BoldInHeader s (cellAt false header column) := by
  intro rows
  cases hheader : headerFirst (·.1) rows with
  | nil => exact absurd (List.nil_perm.1 (hheader ▸ headerFirst_perm (·.1) rows)) hrows
  | cons header others =>
    have hgrid : gridOf rows = lineOf (columnsOf rows) true header :: others.map (lineOf (columnsOf rows) false) := by
      rw [gridOf, hheader]
    refine ⟨header, others, rfl, block_table hequation rfl place hrows, cellAt_bold header, fun s => ?_, fun s column h => ?_⟩
    · refine (yields_composeBlock s (.table (gridOf rows))).mono fun blocks hblocks => ?_
      obtain ⟨composed, rfl, hcomposed⟩ := exists_table_of_untokened hblocks
      rw [hgrid, List.map_cons] at hcomposed
      obtain ⟨first, rest, rfl, hfirst, -⟩ := List.map_eq_cons_iff.1 hcomposed
      rw [lineOf, List.map_map] at hfirst
      have hlength : first.length = columnsOf rows := by simpa using congrArg List.length hfirst
      refine ⟨first, rest, rfl, hlength, fun column cell hcell => ?_⟩
      have hcolumn : column < columnsOf rows := hlength ▸ (List.getElem?_eq_some_iff.1 hcell).1
      have hsame := congrArg (·[column]?) hfirst
      simp only [List.getElem?_map, hcell, List.getElem?_range hcolumn, Option.map_some, Option.some.injEq] at hsame
      rw [← textRuns_untokened, hsame, Function.comp_apply, cellAt_bold]
      exact forall_textRuns_embolden_iff s _
    · rw [cellAt]
      cases hcell : (cellsOf header.2)[column]? with
      | none => exact fun p hp => absurd hp List.not_mem_nil
      | some cell => exact boldInHeader_flow _ cell.children [] (h cell hcell) .nil

/-- The runs with text in the header of a table that stands alone. -/
def headerRuns : List (Block Piece) → List Run
  | [.table (first :: _)] => first.flatMap textRuns
  | _ => []

/-- A table whose head stands behind another row, with emphasis and a paragraph in the header: all of its text is in bold. -/
theorem header_bold_iff_plain :
    let s : Surroundings := ⟨⟨fun _ => none, fun _ _ => none⟩, ⟨[], [], 8000, [], "Cambria Math", "Consolas", 5000, []⟩⟩
    let children : List Node := [
      .element "tr" [] [.element "td" [] [.text .plain "a"]],
      .element "thead" [] [.element "tr" [] [.element "th" [] [.text .plain "h", .element "i" [] [.text .plain "i"]],
        .element "td" [] [.element "p" [] [.text .plain "x"], .element "p" [] [.text .plain "y"]]]]]
    let rows := ownRows false children
    ∃ blocks registry, (composeBlock s (.table (gridOf rows))).valueFrom .empty = .ok (blocks, registry) ∧
      (headerRuns blocks).map (·.content) = ["h", "i", "x", "y"] ∧ ∀ run ∈ headerRuns blocks, run.bold = true := by
  intro s children rows
  have hrows : rows ≠ [] := List.ne_nil_of_length_pos (by decide +kernel)
  have htakes : ∀ row ∈ rows, ∀ cell ∈ cellsOf row.2, ∀ node ∈ Node.subtrees cell.children, TakesBold s node := by decide +kernel
  have hvalue : ((composeBlock s (.table (gridOf rows))).valueFrom .empty).toOption.any
      (fun found => (headerRuns found.1).map (·.content) == ["h", "i", "x", "y"]) = true := by decide +kernel
  obtain ⟨⟨blocks, registry⟩, hcomposed, htexts⟩ := exists_ok_of_any hvalue
  have hequation : (Node.element "table" [] []).isEquation = false := by decide
  obtain ⟨header, others, hheader, -, -, hyields, hbold⟩ := header_bold_iff ⟨false, false⟩ hequation hrows
  obtain ⟨first, rest, rfl, -, hcells⟩ := (hyields s).post_of_ok hcomposed
  have hmem : header ∈ rows := (headerFirst_perm (·.1) rows).mem_iff.1 (hheader ▸ List.mem_cons_self)
  refine ⟨_, registry, hcomposed, beq_iff_eq.1 htexts, fun run hrun => ?_⟩
  obtain ⟨cell, hcell, hrun⟩ := List.mem_flatMap.1 hrun
  obtain ⟨column, hcolumn⟩ := List.mem_iff_getElem?.1 hcell
  refine (hcells column cell hcolumn).2 (hbold s column fun cell hcell => ?_) run hrun
  exact htakes header hmem cell (List.mem_of_getElem? hcell)

/-- The table of a page whose header holds text in a quotation: it is not in bold. -/
theorem header_quotation :
    let s : Surroundings := ⟨⟨fun _ => none, fun _ _ => none⟩, ⟨[], [], 8000, [], "Cambria Math", "Consolas", 5000, []⟩⟩
    let html : Text := "<table><tr><th><blockquote>a</blockquote></th></tr></table>"
    ∃ page blocks registry, Node.parse ("<div>" ++ html ++ ("</div>" : Text)) = .ok page ∧
      (compose s (Document.blocks (content page))).value = .ok (blocks, registry) ∧
      (headerRuns blocks).map (fun run => (run.content, run.bold)) = [(("a" : Text), false)] := by
  intro s html
  have hpage : (Node.parse ("<div>" ++ html ++ ("</div>" : Text))).toOption.any (fun page =>
      (compose s (Document.blocks (content page))).value.toOption.any fun found =>
        (headerRuns found.1).map (fun run => (run.content, run.bold)) == [(("a" : Text), false)]) = true := by decide +kernel
  obtain ⟨page, hparse, htest⟩ := exists_ok_of_any hpage
  obtain ⟨⟨blocks, registry⟩, hcompose, hruns⟩ := exists_ok_of_any htest
  exact ⟨page, blocks, registry, hparse, hcompose, beq_iff_eq.1 hruns⟩

end EquationExport.Document
