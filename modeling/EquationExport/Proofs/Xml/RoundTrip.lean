import EquationExport.Proofs.Xml.ReadBack

/-!
# Trees that are read back

A reader that comes to what was written of a tree takes up a tree with the same tags, if all names in it mean in
the scope of the reader what they meant before, and if it is not too deep. White space between elements may be
lost. Nothing is lost where only elements without children have text, and the text at the front of an element is not
lost if it is no white space, or white space is declared to count.
-/

namespace EquationExport.Xml

open Node

/-! ### Names in scope -/

/-- All names of the tag mean in the scope what they meant. -/
structure Tag.IsKnown (scope : Scope) (tag : Tag) : Prop extends tag.IsReadable where
  elementName : elementName? scope tag.name.parts = some tag.name
  attributeNames : ∀ a ∈ tag.attributes, attributeName? scope a.name.parts = some a.name
  /-- No attribute is read as a declaration. -/
  plain : ∀ a ∈ tag.attributes, declared? a.name.parts = none
  distinct : distinctBy (fun a : Attribute => (a.name.space, a.name.localPart)) tag.attributes = true

variable {scope : Scope} {tag : Tag}

theorem filterMap_declared? {l : List (WrittenName × Text)} (h : ∀ p ∈ l, declared? p.1 = none) :
    l.filterMap (fun (name, value) => (declared? name).map (Declaration.mk · value)) = [] := by
  rw [List.filterMap_eq_nil_iff]
  rintro ⟨name, value⟩ hmem
  simp [h _ hmem]

theorem filter_declared? {l : List (WrittenName × Text)} (h : ∀ p ∈ l, declared? p.1 = none) :
    l.filter (fun (name, _) => (declared? name).isNone) = l := by
  rw [List.filter_eq_self]
  rintro ⟨name, value⟩ hmem
  simp [h _ hmem]

theorem mapM_attributeName? {l : List Attribute} (h : ∀ a ∈ l, attributeName? scope a.name.parts = some a.name) :
    (l.map fun a => (a.name.parts, a.value)).mapM
      (fun (name, value) => (attributeName? scope name).map (Attribute.mk · value)) = some l := by
  induction l with
  | nil => rfl
  | cons a l ih =>
    rw [List.map_cons, List.mapM_cons, ih fun b hb => h b (List.mem_cons_of_mem _ hb)]
    simp [h a List.mem_cons_self]

/-- The tag as it was written is resolved to itself. -/
theorem resolve?_asWritten (h : tag.IsKnown scope) (closed : Bool) :
    resolve? scope (tag.asWritten closed) = some (tag, scope) := by
  have hplain : ∀ p ∈ (tag.asWritten closed).attributes, declared? p.1 = none := by
    intro p hp
    obtain ⟨a, ha, rfl⟩ := List.mem_map.1 hp
    exact h.plain a ha
  have hattributes := mapM_attributeName? h.attributeNames
  have htag : (⟨tag.name, [], tag.attributes⟩ : Tag) = tag := by rw [← h.declarations]
  rw [resolve?, filterMap_declared? hplain, filter_declared? hplain]
  simp only [Tag.asWritten, List.all_nil, distinctBy, Bool.and_self, Bool.not_true, Bool.false_eq_true, if_false,
    List.filter_nil, List.nil_append, h.elementName, hattributes, Option.bind_eq_bind, Option.bind_some, h.distinct,
    if_true, htag]

/-! ### What is read of a tree -/

/-- The elements whose text is looked at. -/
abbrev Selection := Tag → Bool

mutual

/-- The elements of a tree, without any text but that at the front of selected ones. -/
def Node.skeleton (keeps : Selection) : Node → Node
  | .element tag text children _ =>
    .element tag (if keeps tag then text.filter (!·.isEmpty) else none) (skeletons keeps children) []
  | .comment content _ => .comment content []
  | .instruction target content _ => .instruction target content []

/-- The elements of several trees. -/
def skeletons (keeps : Selection) : List Node → List Node
  | [] => []
  | node :: rest => node.skeleton keeps :: skeletons keeps rest

end

mutual

/-- The tree as it is read, where no text is lost: a text that is empty is not there, and nothing follows a node. -/
def Node.reread : Node → Node
  | .element tag text children _ => .element tag (text.filter (!·.isEmpty)) (rereads children) []
  | .comment content _ => .comment content []
  | .instruction target content _ => .instruction target content []

/-- Several trees as they are read. -/
def rereads : List Node → List Node
  | [] => []
  | node :: rest => node.reread :: rereads rest

end

mutual

/-- How many elements stand in one another in a tree. -/
def Node.height : Node → Nat
  | .element _ _ children _ => heights children + 1
  | _ => 0

/-- How many elements stand in one another in several trees. -/
def heights : List Node → Nat
  | [] => 0
  | node :: rest => max node.height (heights rest)

end

theorem rereads_eq_map (l : List Node) : rereads l = l.map (·.reread) := by
  induction l with
  | nil => rfl
  | cons node l ih => rw [rereads, ih, List.map_cons]

variable {keeps : Selection}

@[simp] theorem skeleton_withTail (node : Node) (tail : Text) :
    (node.withTail tail).skeleton keeps = node.skeleton keeps := by
  cases node <;> simp [Node.withTail, Node.skeleton]

theorem everywhere_skeletons {P : Node → Prop} (hP : ByName P) (l : List Node) :
    Everywhere P (skeletons keeps l) ↔ Everywhere P l := by
  induction l using forest_induction with
  | nil => exact Iff.rfl
  | element tag text children tail rest ihc ihr =>
    rw [skeletons, everywhere_cons, everywhere_cons (b := rest), everywhere_singleton, everywhere_singleton, ihr]
    exact and_congr_left' (and_congr ⟨hP _ _ rfl, hP _ _ rfl⟩ ihc)
  | comment content tail rest ih | instruction target content tail rest ih =>
    rw [skeletons, everywhere_cons, everywhere_cons (b := rest), everywhere_singleton, everywhere_singleton, ih]
    exact and_congr_left' (and_congr ⟨hP _ _ rfl, hP _ _ rfl⟩ Iff.rfl)

theorem withTail_reread (node : Node) : node.reread.withTail [] = node.reread := by
  cases node <;> simp [Node.withTail, Node.reread]

/-- The nodes among some pieces of content, as skeletons. -/
def bones (keeps : Selection) : List Piece → List Node
  | [] => []
  | .text _ :: rest => bones keeps rest
  | .node n :: rest => n.skeleton keeps :: bones keeps rest

theorem bones_append (a b : List Piece) : bones keeps (a ++ b) = bones keeps a ++ bones keeps b := by
  induction a with
  | nil => rfl
  | cons p a ih => cases p <;> simp [bones, ih]

theorem bones_textPieces (ts : List Text) : bones keeps (textPieces ts).reverse = [] := by
  rw [textPieces, List.reverse_reverse]
  induction ts with
  | nil => rfl
  | cons t ts ih => rwa [List.map_cons, bones]

theorem skeletons_assemble (pieces : List Piece) : skeletons keeps (assemble pieces).2 = bones keeps pieces := by
  induction pieces with
  | nil => rfl
  | cons p pieces ih =>
    cases p with
    | text t => exact ih
    | node n => rw [assemble, skeletons, skeleton_withTail, bones, ih]

theorem skeleton_close (f : Frame) : f.close.skeleton keeps =
    .element f.tag (if keeps f.tag then (assemble f.pieces.reverse).1.filter (!·.isEmpty) else none)
      (bones keeps f.pieces.reverse) [] := by
  rw [Frame.close, Node.skeleton, skeletons_assemble]

/-- Pieces of text in front of content that does not start with text. -/
theorem assemble_texts_append (ts : List Text) {pieces : List Piece} (h : (assemble pieces).1 = none) :
    assemble (ts.map Piece.text ++ pieces) = (if ts = [] then none else some ts.flatten, (assemble pieces).2) := by
  induction ts with
  | nil => exact Prod.ext h rfl
  | cons t ts ih =>
    rw [List.map_cons, List.cons_append, assemble, ih]
    cases ts <;> simp

/-- A text that is not empty is as it was read, and an empty one is not there. -/
theorem filter_eq_of_flatten {text : Option Text} {ts : List Text} (hnone : text.getD [] = [] → ts = [])
    (hwhole : text.getD [] ≠ [] → ts.flatten = text.getD []) :
    (if ts = [] then none else some ts.flatten).filter (!·.isEmpty) = text.filter (!·.isEmpty) := by
  rcases text with _ | _ | ⟨c, t⟩
  · rw [if_pos (hnone rfl)]
  · rw [if_pos (hnone rfl)]
    rfl
  · have hflatten : ts.flatten = c :: t := hwhole (List.cons_ne_nil _ _)
    have hts : ts ≠ [] := by
      rintro rfl
      cases hflatten
    rw [if_neg hts, hflatten]

theorem assemble_nodes (l : List Node) : assemble (l.map Piece.node) = (none, l.map (·.withTail [])) := by
  induction l with
  | nil => rfl
  | cons n l ih =>
    rw [List.map_cons, assemble, ih, List.map_cons]
    rfl

/-- The pieces of an element with a text alone, or with children alone. -/
theorem assemble_of_tidy {text : Option Text} {children : List Node} {ts : List Text}
    (htidy : (children.isEmpty || (text.getD []).isEmpty) = true) (hnone : text.getD [] = [] → ts = [])
    (hwhole : children = [] → ts.flatten = text.getD []) :
    assemble (ts.map Piece.text ++ (rereads children).map Piece.node) =
      (text.filter (!·.isEmpty), rereads children) := by
  have hfilter : text.getD [] = [] → text.filter (!·.isEmpty) = none := by
    intro hblank
    rcases text with _ | _ | ⟨c, t⟩
    · rfl
    · rfl
    · cases hblank
  rcases Bool.or_eq_true_iff.1 htidy with hleaf | hblank
  · obtain rfl : children = [] := List.isEmpty_iff.1 hleaf
    have hflatten := hwhole rfl
    rw [rereads, List.map_nil, assemble_texts_append ts rfl]
    by_cases hts : ts = []
    · obtain rfl := hts
      rw [if_pos rfl, hfilter hflatten.symm]
      rfl
    · rw [if_neg hts, hflatten]
      rcases text with _ | _ | ⟨c, t⟩
      · exact absurd (hnone rfl) hts
      · exact absurd (hnone rfl) hts
      · rfl
  · have htextnil : text.getD [] = [] := List.isEmpty_iff.1 hblank
    rw [hnone htextnil, List.map_nil, List.nil_append, assemble_nodes, rereads_eq_map, List.map_map, hfilter htextnil]
    congr 1
    exact List.map_congr_left fun n _ => withTail_reread n

/-! ### Reading a tree -/

/-- An element whose tag is known in the scope and whose texts may stand in a document. -/
def Node.IsKnown (scope : Scope) : Node → Prop
  | .element tag text _ tail => tag.IsKnown scope ∧ isLegal (text.getD []) = true ∧ isLegal tail = true
  | _ => False

/-- The text at the front of an element is not lost, if the element is one of those that are looked at. -/
def Node.HoldsText (keeps : Selection) (node : Node) : Prop :=
  ∀ tag ∈ node.tag?, keeps tag = true → (node.text?.getD []) = [] ∨ tag.attribute? spaceAttribute = some "preserve" ∨
    (node.text?.getD []).all (·.isBlank) = false

/-- Text in it alone or elements alone, and nothing behind it. -/
def Node.isTidy (node : Node) : Bool :=
  node.tail.isEmpty && (node.children.isEmpty || (node.text?.getD []).isEmpty)

/-- What is read of several trees: their elements, and all of them if nothing can be lost. -/
structure AreRead (l : List Node) (r : Reader) (pieces : List Piece) (spacing : Spacing) : Prop where
  front : (assemble pieces.reverse).1 = none
  bones : ∀ keeps, Everywhere (·.HoldsText keeps) l → bones keeps pieces.reverse = skeletons keeps l
  tidy : Everywhere (fun n => n.isTidy = true) l →
    pieces = ((rereads l).map Piece.node).reverse ∧ spacing = r.innermost.spacing

/-- Several trees are read back, each with what follows it. -/
def ReadBack (scope : Scope) (l : List Node) : Prop :=
  ∀ (r : Reader) (rest : Text), r.innermost.scope = scope → r.outer.length + heights l < maxDepth →
    ∃ pieces spacing, r.Steps (writeNodes l ++ ('<' : CodePoint) :: rest) (r.extend pieces spacing)
      (('<' : CodePoint) :: rest) ∧ AreRead l r pieces spacing

/-- The marks that announce what is no opening tag. -/
abbrev marks : List Text :=
  [("!--" : Text), ("![CDATA[" : Text), ("!" : Text), ("?" : Text), ("/" : Text)]

/-- Neither an exclamation nor a question mark stands in front. -/
theorem dropOneOf?_marks {c : CodePoint} (hc : c ≠ '!' ∧ c ≠ '?') (s : Text) :
    Text.dropOneOf? (c :: s) marks = Text.dropOneOf? (c :: s) [("/" : Text)] := by
  have hnone : ∀ (p : CodePoint) (pre : Text), c ≠ p → Text.dropPrefix? (c :: s) (p :: pre) = none :=
    fun p pre hp => not_startsWith_of_ne hp
  have hmarks : marks = [('!' : CodePoint) :: ("--" : Text), ('!' : CodePoint) :: ("[CDATA[" : Text), ['!'], ['?'], ("/" : Text)] :=
    rfl
  rw [hmarks]
  simp only [Text.dropOneOf?, hnone _ _ hc.1, hnone _ _ hc.2]

theorem dropOneOf?_of_name {name : Name} (h : isQualifiedName name.parts = true) (s : Text) :
    Text.dropOneOf? (name.written ++ s) marks = none := by
  obtain ⟨c, rest, hwritten, hstart⟩ := exists_cons_of_written h
  have hne : c ≠ '!' ∧ c ≠ '?' ∧ c ≠ '/' := by
    refine ⟨?_, ?_, ?_⟩ <;> rintro rfl <;> exact absurd hstart (by decide)
  rw [hwritten, List.cons_append, dropOneOf?_marks ⟨hne.1, hne.2.1⟩]
  have hnone : Text.dropPrefix? (c :: (rest ++ s)) "/" = none := not_startsWith_of_ne hne.2.2
  simp only [Text.dropOneOf?, hnone]

/-- An opening tag opens an element, or takes it up at once. -/
theorem readOpening {r : Reader} (hscope : r.innermost.scope = scope) (htag : tag.IsKnown scope) (closed : Bool)
    (hdepth : r.outer.length + 1 < maxDepth) (s : Text) :
    r.step? (("<" : Text) ++ (tag.write ++ (tagEnd closed ++ s))) =
      some (if closed then r.push (.node (.element tag none [] []))
        else ⟨⟨tag.name.parts, tag, scope, tag.spacing r.innermost.spacing.inside, []⟩, r.innermost :: r.outer⟩, s) := by
  have hmarkup : Text.dropOneOf? (tag.write ++ (tagEnd closed ++ s)) marks = none := by
    rw [Tag.write, htag.declarations, List.flatMap_nil, List.append_nil, List.append_assoc]
    exact dropOneOf?_of_name htag.name _
  have hopen : r.openElement? (tag.asWritten closed) =
      some (if closed then r.push (.node (.element tag none [] []))
        else ⟨⟨tag.name.parts, tag, scope, tag.spacing r.innermost.spacing.inside, []⟩, r.innermost :: r.outer⟩) := by
    unfold Reader.openElement?
    rw [if_neg (Nat.not_le.2 hdepth), hscope, resolve?_asWritten htag]
    cases closed <;> rfl
  rw [Reader.step?, Text.dropPrefix?_append]
  dsimp only
  rw [Reader.readMarkup?, hmarkup]
  simp only [openingTag?_write htag.toIsReadable, hopen, Option.bind_eq_bind, Option.bind_some]
  rfl

/-- A closing tag closes the innermost element. -/
theorem readClosing {r : Reader} (f : Frame) (outer : List Frame) (houter : r.outer = f :: outer)
    (hwritten : r.innermost.written = tag.name.parts) (hname : isQualifiedName tag.name.parts = true) (s : Text) :
    r.step? (("</" : Text) ++ (tag.name.written ++ (">" ++ s))) = some (⟨f.push (.node r.innermost.close), outer⟩, s) := by
  have hmark : Text.dropOneOf? (("/" : Text) ++ (tag.name.written ++ (">" ++ s))) marks =
      some (("/" : Text), tag.name.written ++ (">" ++ s)) := by
    refine (@dropOneOf?_marks '/' (by decide) _).trans ?_
    have hslash : Text.dropPrefix? (('/' : CodePoint) :: (tag.name.written ++ (">" ++ s))) "/" =
        some (tag.name.written ++ (">" ++ s)) := Text.dropPrefix?_append "/" _
    exact (show Text.dropOneOf? (('/' : CodePoint) :: (tag.name.written ++ (">" ++ s))) [("/" : Text)] = _ by
      rw [Text.dropOneOf?, hslash])
  have hclose : r.closeElement? tag.name.parts = some ⟨f.push (.node r.innermost.close), outer⟩ := by
    rw [Reader.closeElement?, houter]
    simp only [hwritten, if_true]
  have hs : ("</" : Text) ++ (tag.name.written ++ (">" ++ s)) =
      ("<" : Text) ++ (("/" : Text) ++ (tag.name.written ++ (">" ++ s))) := rfl
  have hneither : ("/" : Text) ≠ "!--" ∧ ("/" : Text) ≠ "![CDATA[" ∧ ("/" : Text) ≠ "?" := by decide
  rw [hs, Reader.step?, Text.dropPrefix?_append]
  dsimp only
  rw [Reader.readMarkup?, hmark]
  simp only [hneither.1, hneither.2.1, hneither.2.2, if_false, if_true, closingTag?_written hname, hclose,
    Option.bind_eq_bind, Option.bind_some]
  rfl

/-- What is written of nodes in front of a tag starts with a tag or the like. -/
theorem exists_cons_of_writeNodes (l : List Node) (rest : Text) :
    ∃ front, writeNodes l ++ ('<' : CodePoint) :: rest = ('<' : CodePoint) :: front := by
  cases l with
  | nil => exact ⟨rest, rfl⟩
  | cons n l =>
    cases n with
    | element tag text children tail =>
      rw [writeNodes, Node.write]
      split <;> exact ⟨_, rfl⟩
    | comment content tail => exact ⟨_, rfl⟩
    | instruction target content tail => cases content <;> exact ⟨_, rfl⟩

/-- What is read of an element: the same tags, and the element itself if nothing can be lost. -/
structure IsRead (node read : Node) : Prop where
  skeleton : ∀ keeps, Everywhere (·.HoldsText keeps) [node] → read.skeleton keeps = node.skeleton keeps
  tidy : Everywhere (fun n => n.isTidy = true) [node] → read = node.reread

/-- An element is read back if its children are. -/
theorem exists_readElement {text : Option Text} {children : List Node} {tail : Text} (hchildren : ReadBack scope children)
    (hknown : (element tag text children tail).IsKnown scope) (r : Reader) (hscope : r.innermost.scope = scope)
    (hdepth : r.outer.length + (element tag text children tail).height < maxDepth) (s : Text) :
    ∃ read, r.Steps ((element tag text children tail).write ++ s) (r.push (.node read)) s ∧
      IsRead (element tag text children tail) read := by
  obtain ⟨htag, hlegal, -⟩ := hknown
  rw [Node.height] at hdepth
  rw [Node.write]
  split
  · next hempty =>
    obtain ⟨htext, hnil⟩ := Bool.and_eq_true_iff.1 hempty
    obtain rfl : text = none := Option.isNone_iff_eq_none.1 htext
    obtain rfl : children = [] := List.isEmpty_iff.1 hnil
    refine ⟨element tag none [] [], .one ?_ ?_, fun _ _ => rfl, fun _ => rfl⟩
    · have hstep := readOpening hscope htag true (by omega) s
      rw [if_pos rfl] at hstep
      simpa only [List.append_assoc, tagEnd, if_true] using hstep
    · simp only [List.length_append]
      have hlength : ("/>" : Text).length = 2 := rfl
      omega
  · let opened : Reader :=
      ⟨⟨tag.name.parts, tag, scope, tag.spacing r.innermost.spacing.inside, []⟩, r.innermost :: r.outer⟩
    let close : Text := ("</" : Text) ++ (tag.name.written ++ (">" ++ s))
    let rest : Text := ("/" : Text) ++ (tag.name.written ++ (">" ++ s))
    -- the text, up to the first child or to the closing tag
    obtain ⟨front, hfront⟩ := exists_cons_of_writeNodes children rest
    obtain ⟨ts, textSpacing, htext, hnone, hwhole⟩ := exists_readText (text.getD []) hlegal front opened
    obtain ⟨pieces, spacing, hnodes, hread⟩ := hchildren (opened.extend (textPieces ts) textSpacing) rest rfl
      (show (r.innermost :: r.outer).length + heights children < maxDepth by
        rw [List.length_cons]
        omega)
    rw [Reader.extend_extend] at hnodes
    let full : Reader := opened.extend (pieces ++ textPieces ts) spacing
    have hpieces : full.innermost.pieces.reverse = ts.map Piece.text ++ pieces.reverse := by
      show (pieces ++ textPieces ts ++ []).reverse = _
      rw [List.append_nil, List.reverse_append, textPieces, List.reverse_reverse]
    have hopened : opened.HoldsText := fun p hp => absurd hp List.not_mem_nil
    refine ⟨full.innermost.close, ?_, fun keeps hkeeps => ?_, fun htidy => ?_⟩
    · have hopening : r.Steps (("<" : Text) ++ (tag.write ++ (">" ++ (escapeText (text.getD []) ++ (writeNodes children ++ close)))))
          opened (escapeText (text.getD []) ++ (writeNodes children ++ close)) := by
        refine .one (readOpening hscope htag false (by omega) _) ?_
        simp only [List.length_append]
        have hlength : (">" : Text).length = 1 := rfl
        omega
      have hclosing : full.Steps close (r.push (.node full.innermost.close)) s := by
        refine .one (readClosing r.innermost r.outer rfl rfl htag.name s) ?_
        simp only [close, List.length_append]
        have hlength : (">" : Text).length = 1 := rfl
        omega
      rw [← hfront] at htext
      have hsteps := hopening.trans (htext.trans (Reader.Steps.trans hnodes hclosing))
      simpa only [List.append_assoc, close] using hsteps
    · obtain ⟨hroot, hbelow⟩ := everywhere_singleton.1 hkeeps
      have hbones : bones keeps full.innermost.pieces.reverse = skeletons keeps children := by
        have htexts : bones keeps (textPieces ts).reverse = [] := bones_textPieces ts
        rw [textPieces, List.reverse_reverse] at htexts
        rw [hpieces, bones_append, htexts, List.nil_append, hread.bones keeps hbelow]
      have htag : full.innermost.tag = tag := rfl
      rw [skeleton_close, hbones, Node.skeleton, hpieces, assemble_texts_append ts hread.front, htag]
      congr 1
      split
      · next hkept =>
        have hflatten : text.getD [] ≠ [] → ts.flatten = text.getD [] := by
          intro hne
          refine hwhole ⟨hopened, .inr (.inr ?_)⟩
          rcases hroot tag rfl hkept with hnil | hpreserve | hplain
          · exact absurd hnil hne
          · refine .inl ?_
            show tag.spacing r.innermost.spacing.inside = .preserve
            rw [Tag.spacing, hpreserve]
            rfl
          · exact .inr hplain
        exact filter_eq_of_flatten (fun htextnil => (hnone htextnil).1) hflatten
      · rfl
    · obtain ⟨hroot, hbelow⟩ := everywhere_singleton.1 htidy
      obtain ⟨hpiecesEq, -⟩ := hread.tidy hbelow
      have hassemble : assemble full.innermost.pieces.reverse = (text.filter (!·.isEmpty), rereads children) := by
        rw [hpieces, hpiecesEq, List.reverse_reverse]
        refine assemble_of_tidy (Bool.and_eq_true_iff.1 hroot).2 (fun htextnil => (hnone htextnil).1) ?_
        rintro rfl
        refine hwhole ⟨hopened, .inr (.inl ?_)⟩
        rw [← hfront]
        exact Option.isSome_iff_exists.2 ⟨tag.name.written ++ (">" ++ s), Text.dropPrefix?_append "</" _⟩
      show Node.element tag (assemble full.innermost.pieces.reverse).1 (assemble full.innermost.pieces.reverse).2 [] = _
      rw [hassemble, Node.reread]

theorem readBack (scope : Scope) (l : List Node) : Everywhere (·.IsKnown scope) l → ReadBack scope l := by
  induction l using forest_induction with
  | nil => exact fun _ r rest _ _ => ⟨[], r.innermost.spacing, .refl _ _, rfl, fun _ _ => rfl, fun _ => ⟨rfl, rfl⟩⟩
  | element tag text children tail siblings ihc ihr =>
    intro hknown r rest hscope hdepth
    obtain ⟨hnode, hsiblings⟩ := everywhere_cons.1 hknown
    obtain ⟨hroot, hbelow⟩ := everywhere_singleton.1 hnode
    rw [heights] at hdepth
    obtain ⟨read, hread, hskeleton, htidyNode⟩ := exists_readElement (ihc hbelow) hroot r hscope (by omega)
      (escapeText tail ++ (writeNodes siblings ++ ('<' : CodePoint) :: rest))
    obtain ⟨front, hfront⟩ := exists_cons_of_writeNodes siblings rest
    obtain ⟨ts, tailSpacing, htail, hnone, -⟩ := exists_readText tail hroot.2.2 front (r.push (.node read))
    rw [← hfront] at htail
    rw [Reader.push_eq_extend, Reader.extend_extend] at htail
    obtain ⟨pieces, spacing, hrest, hareRead⟩ := ihr hsiblings (r.extend (textPieces ts ++ [.node read]) tailSpacing) rest
      hscope (show r.outer.length + heights siblings < maxDepth by omega)
    rw [Reader.extend_extend] at hrest
    have hreverse : (pieces ++ (textPieces ts ++ [Piece.node read])).reverse =
        Piece.node read :: ((textPieces ts).reverse ++ pieces.reverse) := by
      simp
    refine ⟨pieces ++ (textPieces ts ++ [.node read]), spacing, ?_, ?_, fun keeps hkeeps => ?_, fun htidy => ?_⟩
    · have hsteps := hread.trans (Reader.Steps.trans htail hrest)
      simpa only [writeNodes, List.append_assoc, Node.tail] using hsteps
    · rw [hreverse]
      rfl
    · obtain ⟨hkeepsOne, hkeepsRest⟩ := everywhere_cons.1 hkeeps
      rw [hreverse, bones, bones_append, bones_textPieces, List.nil_append, hareRead.bones keeps hkeepsRest,
        hskeleton keeps hkeepsOne, skeletons]
    · obtain ⟨htidyOne, htidyRest⟩ := everywhere_cons.1 htidy
      have htailNil : tail = [] := List.isEmpty_iff.1 (Bool.and_eq_true_iff.1 (everywhere_singleton.1 htidyOne).1).1
      obtain ⟨rfl, hspacing⟩ := hnone htailNil
      obtain ⟨rfl, hspacings⟩ := hareRead.tidy htidyRest
      refine ⟨?_, hspacings.trans hspacing⟩
      rw [htidyNode htidyOne, rereads]
      simp [textPieces]
  | comment content tail rest ih | instruction target content tail rest ih =>
    exact fun hknown => absurd (everywhere_singleton.1 (everywhere_cons.1 hknown).1).1 id

/-! ### Content without text between its nodes -/

/-- Trees that are written without what follows each are read back as the content of a root. -/
theorem exists_readContent (scope : Scope) (root : Tag) (l : List Node) (hknown : Everywhere (·.IsKnown scope) l)
    (hdepth : heights l < maxDepth) :
    ∃ text read, readContent? root scope (l.flatMap (·.write)) = some (text, read) ∧
      (∀ keeps, Everywhere (·.HoldsText keeps) l → skeletons keeps read = skeletons keeps l) ∧
      (Everywhere (fun n => n.isTidy = true) l → text = none ∧ read = rereads l) := by
  have hsteps : ∀ r : Reader, r.innermost.scope = scope → r.outer.length + heights l < maxDepth →
      ∃ reads : List Node, r.Steps (l.flatMap (·.write)) (r.extend (reads.map Piece.node).reverse r.innermost.spacing) [] ∧
        (∀ keeps, Everywhere (·.HoldsText keeps) l → skeletons keeps reads = skeletons keeps l) ∧
        (Everywhere (fun n => n.isTidy = true) l → reads = rereads l) := by
    clear hdepth
    induction l with
    | nil => exact fun r _ _ => ⟨[], .refl _ _, fun _ _ => rfl, fun _ => rfl⟩
    | cons n l ih =>
      intro r hscope hdepth
      obtain ⟨hnode, hrest⟩ := everywhere_cons.1 hknown
      obtain ⟨hroot, hbelow⟩ := everywhere_singleton.1 hnode
      rw [heights] at hdepth
      cases n with
      | element tag text children tail =>
        obtain ⟨read, hread, hskeleton, htidy⟩ :=
          exists_readElement (readBack scope children hbelow) hroot r hscope (by omega) (l.flatMap (·.write))
        obtain ⟨reads, hreads, hskeletons, htidies⟩ := ih hrest (r.push (.node read)) hscope
          (show r.outer.length + heights l < maxDepth by omega)
        rw [Reader.push_eq_extend, Reader.extend_extend] at hreads
        refine ⟨read :: reads, ?_, fun keeps hkeeps => ?_, fun h => ?_⟩
        · rw [List.flatMap_cons, List.map_cons, List.reverse_cons]
          exact hread.trans hreads
        · obtain ⟨hkeepsOne, hkeepsRest⟩ := everywhere_cons.1 hkeeps
          rw [skeletons, skeletons, hskeleton keeps hkeepsOne, hskeletons keeps hkeepsRest]
        · obtain ⟨hone, hothers⟩ := everywhere_cons.1 h
          rw [htidy hone, htidies hothers, rereads]
      | comment | instruction => exact absurd hroot id
  let start : Reader := ⟨⟨(none, root.name.localPart), root, scope, .layout, []⟩, []⟩
  obtain ⟨reads, hreads, hskeletons, htidy⟩ := hsteps start rfl (by simpa [start] using hdepth)
  have hrun := hreads.run? (Nat.le_refl _)
  refine ⟨none, reads.map (·.withTail []), ?_, fun keeps hkeeps => ?_, fun h => ⟨rfl, ?_⟩⟩
  · rw [readContent?]
    simp only [start] at hrun
    rw [hrun]
    simp only [Reader.extend, Frame.extend, List.append_nil, List.reverse_reverse, assemble_nodes]
  · rw [← hskeletons keeps hkeeps]
    clear hreads hskeletons htidy hrun
    induction reads with
    | nil => rfl
    | cons n reads ih => rw [List.map_cons, skeletons, skeletons, skeleton_withTail, ih]
  · rw [htidy h, rereads_eq_map, List.map_map]
    exact List.map_congr_left fun n _ => withTail_reread n

end EquationExport.Xml
