import Mathlib.Data.List.Flatten
import Mathlib.Data.List.Perm.Subperm
import EquationExport.Proofs.Document.Finished
import EquationExport.Proofs.Document.Reading

/-!
# Nothing is read twice

What is read of a page are nodes that do not lie in one another, and each of them is read once. So every text of a
page comes to stand in one place of the document at most, and every equation is converted once and becomes either
the run of one token or a run with its source. As before, no row may stand in a cell of another row of its table: the
outline reads such a row once as a part of the cell, and once more as a row of the table.
-/

namespace EquationExport.Document

open EquationExport.Html (Node)

/-! ### Parts of a page -/

/-- Some nodes are parts of others, so that no node lies in two of them. -/
def Parts (sources nodes : List Node) : Prop := (sources.flatMap Node.subtree).Subperm (Node.subtrees nodes)

theorem subtrees_append (nodes more : List Node) : Node.subtrees (nodes ++ more) = Node.subtrees nodes ++ Node.subtrees more := by
  induction nodes with
  | nil => rfl
  | cons node nodes ih => rw [List.cons_append, Node.subtrees, Node.subtrees, ih, List.append_assoc]

theorem subtrees_eq_flatMap (nodes : List Node) : Node.subtrees nodes = nodes.flatMap Node.subtree := by
  induction nodes with
  | nil => rfl
  | cons node nodes ih => rw [Node.subtrees, ih, List.flatMap_cons]

theorem subtrees_perm {nodes nodes' : List Node} (h : nodes.Perm nodes') : (Node.subtrees nodes).Perm (Node.subtrees nodes') := by
  rw [subtrees_eq_flatMap, subtrees_eq_flatMap]
  exact h.flatMap_right _

namespace Parts

variable {sources sources' nodes nodes' : List Node} {node : Node}

theorem nil (nodes : List Node) : Parts [] nodes := List.nil_subperm

theorem refl (nodes : List Node) : Parts nodes nodes := by
  rw [Parts, subtrees_eq_flatMap]

theorem self (node : Node) : Parts [node] [node] := refl [node]

theorem append (h : Parts sources nodes) (h' : Parts sources' nodes') : Parts (sources ++ sources') (nodes ++ nodes') := by
  rw [Parts, List.flatMap_append, subtrees_append]
  exact List.Subperm.append h h'

theorem cons (h : Parts sources [node]) (h' : Parts sources' nodes) : Parts (sources ++ sources') (node :: nodes) :=
  h.append h'

/-- Other nodes may be added in front. -/
theorem skip (node : Node) (h : Parts sources nodes) : Parts sources (node :: nodes) := (nil [node]).cons h

theorem inside {name : Text} {attributes : List (Text × Text)} {children : List Node} (h : Parts sources children) :
    Parts sources [.element name attributes children] := by
  refine List.Subperm.trans h (List.Sublist.subperm ?_)
  rw [Node.subtrees, Node.subtrees, List.append_nil, Node.subtree]
  exact List.sublist_cons_self _ _

theorem perm (hsources : sources.Perm sources') (hnodes : nodes'.Perm nodes) (h : Parts sources nodes') : Parts sources' nodes :=
  ((hsources.symm.flatMap_right _).subperm.trans h).trans (subtrees_perm hnodes).subperm

/-- Parts of those with a property and parts of those without are parts of all. -/
theorem split (p : Node → Bool) (h : Parts sources (nodes.filter p)) (h' : Parts sources' (nodes.filter fun node => !p node)) :
    Parts (sources ++ sources') nodes :=
  (h.append h').perm (.refl _) (List.filter_append_perm p nodes)

theorem mem (h : Parts sources nodes) (hnode : node ∈ sources) : node ∈ Node.subtrees nodes :=
  h.subset (List.mem_flatMap.2 ⟨node, hnode, mem_subtree node⟩)

end Parts

/-! ### What is read are parts -/

mutual

theorem parts_readInline : ∀ node, Parts (readInline node) [node]
  | .text .. => .self _
  | .markup .. => .nil _
  | .element name attributes children => by
    rw [readInline]
    split_ifs
    · exact .self _
    · exact .nil _
    · exact .self _
    · exact (parts_readInlines children).inside

theorem parts_readInlines : ∀ nodes, Parts (readInlines nodes) nodes
  | [] => .nil _
  | node :: rest => by
    rw [readInlines]
    exact (parts_readInline node).cons (parts_readInlines rest)

end

mutual

theorem parts_readItems : ∀ nodes, Parts (readItems nodes) nodes
  | [] => by
    rw [readItems]
    exact .nil []
  | .element name attributes children :: rest => by
    rw [readItems]
    refine Parts.cons ?_ (parts_readItems rest)
    split
    · have hlists := parts_readLists children
      refine Parts.inside (Parts.perm List.perm_append_comm (.refl _) (hlists.split isList ?_))
      exact parts_readInlines _
    · exact .nil _
  | .text .. :: rest => by
    rw [readItems]
    exact (parts_readItems rest).skip _
  | .markup .. :: rest => by
    rw [readItems]
    exact (parts_readItems rest).skip _

/-- The lists among some nodes are read in them, and nothing else is. -/
theorem parts_readLists : ∀ nodes, Parts (readLists nodes) (nodes.filter isList)
  | [] => by
    rw [readLists]
    exact .nil []
  | .element name attributes children :: rest => by
    rw [readLists]
    by_cases hlist : name = "ul" ∨ name = "ol"
    · have helement : isList (.element name attributes children) = true := isList_element.2 (by simpa using hlist)
      rw [if_pos hlist, List.filter_cons_of_pos helement]
      exact (parts_readItems children).inside.cons (parts_readLists rest)
    · have helement : ¬ isList (.element name attributes children) = true := fun h => hlist (by simpa using isList_element.1 h)
      rw [if_neg hlist, List.filter_cons_of_neg helement]
      exact parts_readLists rest
  | .text .. :: rest => by
    rw [readLists]
    exact parts_readLists rest
  | .markup .. :: rest => by
    rw [readLists]
    exact parts_readLists rest

end

/-- Outside of a row all nodes may hold rows. -/
theorem filter_outside (nodes : List Node) : nodes.filter (fun node => !(false && isCell node)) = nodes := List.filter_true nodes

mutual

theorem parts_readBlock (inHead : Bool) : ∀ node, Parts (readBlock inHead node) [node]
  | .text .. => .nil _
  | .markup .. => .nil _
  | .element name attributes children => by
    rw [readBlock]
    split_ifs
    · exact .self _
    · exact (parts_readItems children).inside
    · have hrows := parts_readRows false inHead children
      rw [filter_outside] at hrows
      exact (hrows.perm ((headerFirst_perm _ _).symm.flatMap_right _) (.refl _)).inside
    · exact .nil _
    · exact (parts_readInlines children).inside
    · exact (parts_readFlow inHead children).inside

theorem parts_readFlow (inHead : Bool) : ∀ nodes, Parts (readFlow inHead nodes) nodes
  | [] => .nil _
  | node :: rest => by
    rw [readFlow]
    refine Parts.cons ?_ (parts_readFlow inHead rest)
    split
    · exact parts_readInline node
    · exact parts_readBlock inHead node

theorem parts_readRow (inHead : Bool) : ∀ node, Parts ((readRow inHead node).flatMap (·.2)) [node]
  | .text .. => .nil _
  | .markup .. => .nil _
  | .element name attributes children => by
    rw [readRow]
    split_ifs
    · exact .nil _
    · exact Parts.inside ((parts_readCells inHead children).split isCell (parts_readRows true inHead children))
    · have hrows := parts_readRows false (inHead || name = "thead") children
      rw [filter_outside] at hrows
      exact hrows.inside

/-- The rows among the nodes of a row are read beside its cells. -/
theorem parts_readRows (inRow inHead : Bool) : ∀ nodes,
    Parts ((readRows inRow inHead nodes).flatMap (·.2)) (nodes.filter fun node => !(inRow && isCell node))
  | [] => .nil _
  | node :: rest => by
    rw [readRows, List.flatMap_append]
    by_cases hcell : (inRow && isCell node) = true
    · rw [if_pos hcell, List.filter_cons_of_neg (by simp [hcell])]
      exact parts_readRows inRow inHead rest
    · rw [if_neg hcell, List.filter_cons_of_pos (by simp [hcell])]
      exact (parts_readRow inHead node).cons (parts_readRows inRow inHead rest)

/-- The cells of a row are read in them, and nothing else is. -/
theorem parts_readCells (inHead : Bool) : ∀ nodes, Parts (readCells inHead nodes) (nodes.filter isCell)
  | [] => .nil _
  | .element name attributes children :: rest => by
    have hiff : isCell (.element name attributes children) = true ↔ name = "th" ∨ name = "td" := by
      rw [isCell, isOneOf_element]
      simp
    rw [readCells]
    by_cases hcell : name = "th" ∨ name = "td"
    · rw [if_pos hcell, List.filter_cons_of_pos (hiff.2 hcell)]
      exact (parts_readFlow inHead children).inside.cons (parts_readCells inHead rest)
    · rw [if_neg hcell, List.filter_cons_of_neg (mt hiff.1 hcell)]
      exact parts_readCells inHead rest
  | .text .. :: rest => by
    rw [readCells]
    exact parts_readCells inHead rest
  | .markup .. :: rest => by
    rw [readCells]
    exact parts_readCells inHead rest

end

/-- What is read of nodes are parts of them: nothing is read twice. -/
theorem parts_reading (nodes : List Node) : Parts (reading nodes) nodes := parts_readFlow false nodes

/-! ### What becomes of what is read -/

/-- A piece without its look and without the token of its equation. -/
def Piece.bare : Piece → Piece
  | .run r => .run ⟨r.content, none, false, false, r.broken⟩
  | .equation item => .equation ⟨[], item.omml, item.display⟩

/-- Pieces other than runs with nothing in them. -/
def filled (pieces : List Piece) : List Piece := (pieces.map Piece.bare).filter fun p => p ≠ .run .blank

section Outcome

variable (s : Surroundings)

/--
What becomes of a node that is read: a text becomes a run, an equation its markup or a run with its source,
preformatted text the runs of its lines.
-/
def Surroundings.outcome (node : Node) : List Piece :=
  ((rendering node).filter (·.isShown s)).map fun p => (p.piece s).bare

/-- What is asked of the converters for a node that is read. -/
def Surroundings.questions (node : Node) : List Call := if node.isEquation then (s.built node).calls else []

theorem calls_codePieces (lines : List Text) : (codePieces lines).flatMap (·.calls s) = [] := by
  induction lines with
  | nil => rfl
  | cons line rest ih =>
    cases rest with
    | nil => rfl
    | cons next rest => exact ih

theorem calls_bare (p : Inline) : p.bare.calls s = p.calls s := by cases p <;> rfl

theorem isShown_bare (p : Inline) : p.bare.isShown s = p.isShown s := by cases p <;> rfl

@[simp] theorem Piece.bare_bare (p : Piece) : p.bare.bare = p.bare := by cases p <;> rfl

@[simp] theorem Piece.bare_untokened (p : Piece) : p.untokened.bare = p.bare := by cases p <;> rfl

theorem bare_piece_bare (p : Inline) : (p.bare.piece s).bare = (p.piece s).bare := by cases p <;> rfl

/-- The outcome of nodes is told by their pieces, whatever these look like. -/
theorem flatMap_outcome {content : List Inline} {sources : List Node} (h : content.map Inline.bare = sources.flatMap rendering) :
    sources.flatMap s.outcome = (content.filter (·.isShown s)).map fun p => (p.piece s).bare := by
  have houtcome : sources.flatMap s.outcome =
      ((sources.flatMap rendering).filter (·.isShown s)).map fun p => (p.piece s).bare := by
    rw [List.filter_flatMap, List.map_flatMap]
    rfl
  rw [houtcome, ← h, List.filter_map, List.map_map]
  simp only [Function.comp_def, isShown_bare, bare_piece_bare]

theorem flatMap_calls_rendering (node : Node) : (rendering node).flatMap (·.calls s) = s.questions node := by
  cases node with
  | text kind content =>
    rw [rendering]
    split <;> rfl
  | markup => rfl
  | element name attributes children =>
    rw [rendering, Surroundings.questions]
    split_ifs
    · exact List.append_nil _
    · rfl
    · rw [List.flatMap_map]
      simpa only [calls_bare] using calls_codePieces s _
    · rfl

theorem length_outcome_le (node : Node) (h : (node.isText || node.isEquation) = true) : (s.outcome node).length ≤ 1 := by
  have hrendering : (rendering node).length ≤ 1 := by
    cases node with
    | text kind content =>
      rw [rendering]
      split <;> simp
    | markup => exact Nat.zero_le 1
    | element name attributes children =>
      rw [rendering, if_pos (by simpa [Node.isText] using h)]
      exact Nat.le_refl 1
  rw [Surroundings.outcome, List.length_map]
  exact (List.length_filter_le _ _).trans hrendering

/-- The pieces of a composed document are those that the pieces of its outline become. -/
theorem filled_content {outline : List (Block Inline)} {composed : List (Block Piece)} {sources : List Node}
    (h : mapBlocks Piece.untokened composed = mapBlocks (·.piece s) (settledBlocks s outline))
    (hsources : (contentOfBlocks outline).map Inline.bare = sources.flatMap rendering) :
    filled (contentOfBlocks composed) = filled (sources.flatMap s.outcome) := by
  have hpieces : (contentOfBlocks composed).map Piece.bare =
      (contentOfBlocks (settledBlocks s outline)).map fun p => (p.piece s).bare := by
    have hcontent := congrArg (fun blocks => (contentOfBlocks blocks).map Piece.bare) h
    simpa only [contentOfBlocks_map, List.map_map, Function.comp_def, Piece.bare_untokened] using hcontent
  have hsettled := @filter_content_settledBlocks s (fun p => decide ((p.piece s).bare ≠ .run .blank)) rfl outline
  rw [filled, filled, hpieces, flatMap_outcome s hsources, List.map_map, List.filter_map, List.filter_map]
  simp only [Function.comp_def, Piece.bare_bare] at hsettled ⊢
  rw [hsettled]

end Outcome

/-! ### Composing pages -/

/--
In a page no table of which has a row in a cell of another row, nothing is read twice. The document comes from
nodes of the page that do not lie in one another: each text and each equation among them becomes at most one
piece of the document, the converters are asked about each equation once, and every piece that is an equation
has one token. This holds as well as far as it goes if the page holds a text that cannot be written.
-/
theorem compose_once (s : Surroundings) {nodes : List Node} (h : RowsApart nodes) :
    ∃ sources : List Node, (sources.flatMap Node.subtree).Subperm (Node.subtrees nodes) ∧
      (∀ node ∈ sources, (node.isText || node.isEquation) = true → (s.outcome node).length ≤ 1) ∧
      (compose s (blocks nodes)).calls <+: sources.flatMap s.questions ∧
      ∀ composed registry, (compose s (blocks nodes)).value = .ok (composed, registry) →
        registry.replacements = equations (contentOfBlocks composed) ∧
        filled (contentOfBlocks composed) = filled (sources.flatMap s.outcome) := by
  obtain ⟨sources, hsublist, hcontent⟩ := (renders_blocks h).exists_sublist
  have hcalls : (contentOfBlocks (blocks nodes)).flatMap (·.calls s) = sources.flatMap s.questions := by
    have hbare : (contentOfBlocks (blocks nodes)).flatMap (·.calls s) =
        ((contentOfBlocks (blocks nodes)).map Inline.bare).flatMap (·.calls s) := by
      rw [List.flatMap_map]
      simp only [calls_bare]
    rw [hbare, hcontent, List.flatMap_assoc]
    simp only [flatMap_calls_rendering]
  refine ⟨sources, ?_, fun node _ => length_outcome_le s node, ?_, ?_⟩
  · exact (hsublist.flatMap Node.subtree).subperm.trans (parts_reading nodes)
  · rw [← hcalls]
    by_cases hwritable : Writable (textsOf s (blocks nodes))
    · obtain ⟨_, _, _, hcalls, _⟩ := exists_compose_eq hwritable
      rw [hcalls]
    · exact (compose_eq_error hwritable).2
  · intro composed registry hvalue
    refine ⟨(equations_of_compose hvalue).2, ?_⟩
    by_cases hwritable : Writable (textsOf s (blocks nodes))
    · obtain ⟨_, _, hvalue', _, hblocks⟩ := exists_compose_eq hwritable
      rw [hvalue] at hvalue'
      cases hvalue'
      exact filled_content s hblocks hcontent
    · rw [(compose_eq_error hwritable).1] at hvalue
      cases hvalue

/-- A list in an item of a list, with an equation. -/
theorem compose_once_listed :
    let s : Surroundings := ⟨⟨fun _ => some "<m:r><m:t>x</m:t></m:r>", fun _ _ => none⟩,
      ⟨[], [], 8000, [], "Cambria Math", "Consolas", 5000, []⟩⟩
    let html : Text := "<div><ul><li>a<ul><li><i class=katex><math>x</math></i></ul>b</ul></div>"
    ∃ (page : List Node) (composed : List (Block Piece)) (registry : Registry) (sources : List Node),
      Node.parse html = .ok page ∧ RowsApart (content page) ∧
      (compose s (blocks (content page))).value = .ok (composed, registry) ∧ registry.replacements.length = 1 ∧
      (sources.flatMap Node.subtree).Subperm (Node.subtrees (content page)) ∧
      (compose s (blocks (content page))).calls <+: sources.flatMap s.questions ∧
      filled (contentOfBlocks composed) = filled (sources.flatMap s.outcome) := by
  intro s html
  have hpage : (Node.parse html).toOption.any (fun page => decide (RowsApart (content page)) &&
      (compose s (blocks (content page))).value.toOption.any (·.2.replacements.length == 1)) = true := by decide +kernel
  obtain ⟨page, hparse, htest⟩ := exists_ok_of_any hpage
  rw [Bool.and_eq_true, decide_eq_true_eq] at htest
  obtain ⟨hrows, hvalue⟩ := htest
  obtain ⟨⟨composed, registry⟩, hcompose, hlength⟩ := exists_ok_of_any hvalue
  obtain ⟨sources, hparts, -, hcalls, hcontent⟩ := compose_once s hrows
  exact ⟨page, composed, registry, sources, hparse, hrows, hcompose, beq_iff_eq.1 hlength, hparts, hcalls,
    (hcontent composed registry hcompose).2⟩

/-- A row in a cell of another row, as it is found where end tags are left out: its only equation is converted twice. -/
theorem compose_twice :
    let s : Surroundings := ⟨⟨fun _ => some "<m:r><m:t>x</m:t></m:r>", fun _ _ => none⟩,
      ⟨[], [], 8000, [], "Cambria Math", "Consolas", 5000, []⟩⟩
    let html : Text := "<div><table><tr><td>a<tr><td><i class=katex><math>x</math></i></table></div>"
    ∃ page registry calls, Node.parse html = .ok page ∧ (Node.equations page).length = 1 ∧
      (∃ composed, compose s (blocks (content page)) = ⟨.ok (composed, registry), calls⟩) ∧
      registry.replacements.length = 2 ∧ calls.length = 2 := by
  intro s html
  have hpage : (Node.parse html).toOption.any (fun page => (Node.equations page).length == 1 &&
      ((compose s (blocks (content page))).value.toOption.any (·.2.replacements.length == 2) &&
        (compose s (blocks (content page))).calls.length == 2)) = true := by decide +kernel
  obtain ⟨page, hparse, htest⟩ := exists_ok_of_any hpage
  rw [Bool.and_eq_true, Bool.and_eq_true, beq_iff_eq, beq_iff_eq] at htest
  obtain ⟨hequations, hvalue, hcalls⟩ := htest
  obtain ⟨⟨composed, registry⟩, hcompose, hlength⟩ := exists_ok_of_any hvalue
  exact ⟨page, registry, _, hparse, hequations, ⟨composed, by rw [← hcompose]⟩, beq_iff_eq.1 hlength, hcalls⟩

end EquationExport.Document
