import EquationExport.Proofs.Document.Mapped
import EquationExport.Proofs.Document.Placement
import EquationExport.Proofs.Xml.Legal

/-!
# The finished document in terms of the outline

Whether an equation can be converted does not depend on where it stands, so what composing makes of an outline can be
said without the computation: every piece becomes a run or an equation by itself, pieces that show nothing are
dropped, and paragraphs that become empty by this are left out or filled. The document is the outline, written with
every piece in its finished form. Composing fails only if a text that it hands on cannot be written, and it
asks the converters about the equations of the outline, one after the other.
-/

namespace EquationExport.Document

open EquationExport.Html (Node)

/-- What passes a test is a result. -/
theorem exists_ok_of_any {ε α : Type} {result : Except ε α} {test : α → Bool} (h : result.toOption.any test = true) :
    ∃ a, result = .ok a ∧ test a = true := by
  cases result with
  | error => cases h
  | ok a => exact ⟨a, rfl, h⟩

/-! ### What becomes of a piece -/

section Piecewise

variable (s : Surroundings)

/-- The answer that the sources of an equation get, with the questions that are asked for it. -/
def Surroundings.built (node : Node) : Traced (Option Text) :=
  (node.sources s.settings.maxTitleLatexLength).build s.converters

/-- The markup of an equation, or nothing if it cannot be converted. -/
def Surroundings.markup? (node : Node) : Option Text := nonempty? (s.built node).value

/-- What is shown in the place of an equation that cannot be converted. -/
def Surroundings.fallback (node : Node) : Text := (node.fallbackText s.settings.maxTitleLatexLength).sanitize

/-- The run that a text becomes. -/
def Surroundings.run (content : Text) (look : Look) (broken : Bool) : Run :=
  ⟨content, if look.code then some s.settings.codeFont else none, look.bold, look.italic, broken⟩

/-- What a piece of an outline becomes, but for the token of an equation. -/
def Inline.piece : Inline → Piece
  | .text content look broken => .run (s.run content look broken)
  | .equation node => match s.markup? node with
    | some omml => .equation ⟨[], omml, node.isDisplay⟩
    | none => .run (s.run (s.fallback node) ⟨false, false, true⟩ false)

/-- A piece as it is written with its equation in its place. -/
def Inline.finished (p : Inline) : Text := (p.piece s).finished

/-- The piece becomes something: it is no equation without both markup and source. -/
def Inline.isShown : Inline → Bool
  | .text .. => true
  | .equation node => (s.markup? node).isSome || !(s.fallback node).isEmpty

/-- The texts of a run that have to be writable. -/
def Run.texts (r : Run) : List Text := r.content :: r.font.toList

/-- The texts that have to be writable for a piece. -/
def Inline.texts (p : Inline) : List Text :=
  if p.isShown s then match p.piece s with
    | .run r => r.texts
    | .equation _ => []
  else []

/-- What is asked of the converters for a piece. -/
def Inline.calls : Inline → List Call
  | .text .. => []
  | .equation node => (s.built node).calls

/-! ### What becomes of an outline -/

/-- A paragraph without the pieces that show nothing, or nothing if it is left out. -/
def Paragraph.settled (p : Paragraph Inline) : List (Block Inline) :=
  if (p.content.filter (·.isShown s)).isEmpty then
    match p.whenEmpty with
    | .leaveOut => []
    | .keep => [.paragraph ⟨p.kind, p.whenEmpty, []⟩]
    | .fill => [.paragraph ⟨p.kind, p.whenEmpty, [.text [] .plain false]⟩]
  else [.paragraph ⟨p.kind, p.whenEmpty, p.content.filter (·.isShown s)⟩]

mutual

/-- A block without the pieces that show nothing. -/
def settledBlock : Block Inline → List (Block Inline)
  | .paragraph p => p.settled s
  | .table rows => [.table (settledRows rows)]

/-- Blocks without the pieces that show nothing. -/
def settledBlocks : List (Block Inline) → List (Block Inline)
  | [] => []
  | block :: rest => settledBlock block ++ settledBlocks rest

/-- The cells of a row without the pieces that show nothing. -/
def settledCells : List (List (Block Inline)) → List (List (Block Inline))
  | [] => []
  | cell :: rest => settledBlocks cell :: settledCells rest

/-- The rows of a table without the pieces that show nothing. -/
def settledRows : List (List (List (Block Inline))) → List (List (List (Block Inline)))
  | [] => []
  | row :: rest => settledCells row :: settledRows rest

end

theorem settledBlocks_append (blocks more : List (Block Inline)) :
    settledBlocks s (blocks ++ more) = settledBlocks s blocks ++ settledBlocks s more := by
  induction blocks with
  | nil => rfl
  | cons block blocks ih => rw [List.cons_append, settledBlocks, settledBlocks, ih, List.append_assoc]

theorem settledCells_eq_map (cells : List (List (Block Inline))) :
    settledCells s cells = cells.map (settledBlocks s) := by
  induction cells with
  | nil => rfl
  | cons cell rest ih => rw [settledCells, ih, List.map_cons]

theorem settledRows_eq_map (rows : List (List (List (Block Inline)))) :
    settledRows s rows = rows.map (·.map (settledBlocks s)) := by
  induction rows with
  | nil => rfl
  | cons row rest ih => rw [settledRows, ih, settledCells_eq_map, List.map_cons]

theorem settledBlocks_eq_flatMap (blocks : List (Block Inline)) :
    settledBlocks s blocks = blocks.flatMap (settledBlock s) := by
  induction blocks with
  | nil => rfl
  | cons block rest ih => rw [settledBlocks, ih, List.flatMap_cons]

end Piecewise

/-- The piece without the token of its equation. -/
def Piece.untokened : Piece → Piece
  | .run r => .run r
  | .equation item => .equation ⟨[], item.omml, item.display⟩

@[simp] theorem Piece.finished_untokened (p : Piece) : p.untokened.finished = p.finished := by cases p <;> rfl

theorem eq_map_run_of_untokened {pieces : List Piece} {runs : List Run} (h : pieces.map Piece.untokened = runs.map .run) :
    pieces = runs.map .run := by
  induction pieces generalizing runs with
  | nil => rw [← h, List.map_nil]
  | cons piece rest ih =>
    obtain ⟨r, runs, rfl, hrun, hrest⟩ := List.map_eq_cons_iff.1 h.symm
    cases piece with
    | equation => cases hrun
    | run => rw [List.map_cons, ← ih hrest.symm, hrun]; rfl

/-! ### What a computation yields -/

/-- What is asked of the converters by a computation, from a registry on. -/
def Composing.callsFrom (m : Composing α) (r : Registry) : List Call := (m.run r).run.calls

theorem Composing.callsFrom_bind (m : Composing α) (k : α → Composing β) (r : Registry) :
    Composing.callsFrom (m >>= k) r = m.callsFrom r ++ match m.valueFrom r with
      | .ok (a, r') => (k a).callsFrom r'
      | .error _ => [] := by
  have hrun : Composing.callsFrom (m >>= k) r =
      m.callsFrom r ++ (ExceptT.bindCont (fun found => ((k found.1).run found.2)) (m.valueFrom r)).calls := rfl
  rw [hrun]
  cases m.valueFrom r with
  | error e => rfl
  | ok found => rfl

/-- All of some texts can be written. -/
def Writable (texts : List Text) : Prop := ∀ t ∈ texts, Xml.isLegal t = true

instance (texts : List Text) : Decidable (Writable texts) := inferInstanceAs (Decidable (∀ t ∈ texts, _))

theorem writable_nil : Writable [] := fun _ h => absurd h List.not_mem_nil

theorem writable_append_iff {texts more : List Text} : Writable (texts ++ more) ↔ Writable texts ∧ Writable more :=
  List.forall_mem_append

/--
The computation yields a value as described if all of some texts can be written, and asks the given questions for it.
If one of the texts cannot be written it fails, after some of these questions.
-/
structure Yields (m : Composing α) (texts : List Text) (calls : List Call) (post : α → Prop) : Prop where
  ok : Writable texts → ∀ r, ∃ a r', m.valueFrom r = .ok (a, r') ∧ m.callsFrom r = calls ∧ post a
  refused : ¬ Writable texts → ∀ r, m.valueFrom r = .error .forbiddenCharacter ∧ m.callsFrom r <+: calls

namespace Yields

variable {α β : Type} {texts more : List Text} {calls later : List Call}

theorem pure (a : α) : Yields (Pure.pure a) [] [] (· = a) where
  ok _ r := ⟨a, r, rfl, rfl, rfl⟩
  refused h := absurd writable_nil h

theorem bind {m : Composing α} {k : α → Composing β} {post : α → Prop} {post' : β → Prop} (hm : Yields m texts calls post)
    (hk : ∀ a, post a → Yields (k a) more later post') : Yields (m >>= k) (texts ++ more) (calls ++ later) post' := by
  constructor
  · intro hwritable r
    obtain ⟨htexts, hmore⟩ := writable_append_iff.1 hwritable
    obtain ⟨a, r', hvalue, hcalls, hpost⟩ := hm.ok htexts r
    obtain ⟨b, r'', hvalue', hcalls', hpost'⟩ := (hk a hpost).ok hmore r'
    refine ⟨b, r'', ?_, ?_, hpost'⟩
    · rw [Composing.valueFrom_bind, hvalue]
      exact hvalue'
    · rw [Composing.callsFrom_bind, hvalue, hcalls]
      exact congrArg _ hcalls'
  · intro hrefused r
    by_cases htexts : Writable texts
    · obtain ⟨a, r', hvalue, hcalls, hpost⟩ := hm.ok htexts r
      have hmore : ¬ Writable more := fun hmore => hrefused (writable_append_iff.2 ⟨htexts, hmore⟩)
      obtain ⟨herror, hprefix⟩ := (hk a hpost).refused hmore r'
      rw [Composing.valueFrom_bind, Composing.callsFrom_bind, hvalue, hcalls]
      exact ⟨herror, (List.prefix_append_right_inj calls).2 hprefix⟩
    · obtain ⟨herror, hprefix⟩ := hm.refused htexts r
      rw [Composing.valueFrom_bind, Composing.callsFrom_bind, herror]
      exact ⟨rfl, by simpa using hprefix.trans (List.prefix_append calls later)⟩

theorem mono {m : Composing α} {post post' : α → Prop} (hm : Yields m texts calls post) (h : ∀ a, post a → post' a) :
    Yields m texts calls post' := by
  refine ⟨fun hwritable r => ?_, hm.refused⟩
  obtain ⟨a, r', hvalue, hcalls, hpost⟩ := hm.ok hwritable r
  exact ⟨a, r', hvalue, hcalls, h a hpost⟩

/-- A value that is yielded is as described. -/
theorem post_of_ok {m : Composing α} {post : α → Prop} (hm : Yields m texts calls post) {r r' : Registry} {a : α}
    (h : m.valueFrom r = .ok (a, r')) : post a := by
  by_cases hwritable : Writable texts
  · obtain ⟨_, _, hvalue, -, hpost⟩ := hm.ok hwritable r
    rw [h] at hvalue
    cases hvalue
    exact hpost
  · rw [(hm.refused hwritable r).1] at h
    cases h

/-- A last step that needs no text and asks nothing. -/
theorem map {m : Composing α} {post : α → Prop} (hm : Yields m texts calls post) (f : α → β) {post' : β → Prop}
    (h : ∀ a, post a → post' (f a)) : Yields (m >>= fun a => Pure.pure (f a)) texts calls post' := by
  have hlast : ∀ a, post a → Yields (Pure.pure (f a)) [] [] post' :=
    fun a ha => (Yields.pure (f a)).mono fun b hb => hb ▸ h a ha
  have hbind := hm.bind hlast
  rwa [List.append_nil, List.append_nil] at hbind

end Yields

/-! ### Composing -/

theorem yields_allow (t : Text) : Yields (allow t) [t] [] (· = t) := by
  constructor
  · intro hwritable r
    have hok : allow t = pure t := by
      rw [allow, Xml.writable, if_pos (show t.all (·.isXml) = true from hwritable t List.mem_cons_self)]
    exact ⟨t, r, by rw [hok]; rfl, by rw [hok]; rfl, rfl⟩
  · intro hrefused r
    have herror : allow t = throw .forbiddenCharacter := by
      rw [allow, Xml.writable, if_neg]
      exact fun hall => hrefused (List.forall_mem_singleton.2 hall)
    rw [herror]
    exact ⟨rfl, List.nil_prefix⟩

variable (s : Surroundings)

theorem yields_composeText (content : Text) (look : Look) (broken : Bool) :
    Yields (composeText s content look broken) (s.run content look broken).texts [] (· = s.run content look broken) := by
  have hcontent := yields_allow content
  by_cases hcode : look.code
  · have hfont : ∀ allowed, allowed = content → Yields (do
        let font ← allow s.settings.codeFont
        pure (⟨allowed, some font, look.bold, look.italic, broken⟩ : Run)) [s.settings.codeFont] []
        (· = s.run content look broken) := by
      rintro _ rfl
      refine (yields_allow s.settings.codeFont).map _ ?_
      rintro _ rfl
      simp [Surroundings.run, hcode]
    have hbind := hcontent.bind hfont
    simpa [composeText, Run.texts, Surroundings.run, hcode] using hbind
  · have hmap : Yields (do
        let allowed ← allow content
        pure (⟨allowed, none, look.bold, look.italic, broken⟩ : Run)) [content] [] (· = s.run content look broken) := by
      refine hcontent.map _ ?_
      rintro _ rfl
      simp [Surroundings.run, hcode]
    simpa [composeText, Run.texts, Surroundings.run, hcode] using hmap

theorem yields_markupOf (node : Node) : Yields (markupOf s node) [] (s.built node).calls (· = s.markup? node) := by
  refine ⟨fun _ r => ⟨_, r, rfl, ?_, rfl⟩, fun h => absurd writable_nil h⟩
  show (s.built node).calls ++ [] ++ [] ++ [] = _
  simp only [List.append_nil]

theorem yields_register (omml : Text) (display : Bool) :
    Yields (modifyGet fun registry => registry.register omml display : Composing Text) [] [] fun _ => True :=
  ⟨fun _ _ => ⟨_, _, rfl, rfl, trivial⟩, fun h => absurd writable_nil h⟩

/-- The pieces that a piece of the outline becomes: one, or none if it shows nothing. -/
def Inline.pieces (p : Inline) : List Piece := if p.isShown s then [p.piece s] else []

theorem yields_composeEquation (node : Node) : Yields (composeEquation s node) (Inline.texts s (.equation node))
    (Inline.calls s (.equation node)) fun pieces => pieces.map Piece.untokened = Inline.pieces s (.equation node) := by
  have hmarkup := yields_markupOf s node
  cases hvalue : s.markup? node with
  | some omml =>
    have hshown : Inline.isShown s (.equation node) = true := by simp [Inline.isShown, hvalue]
    have hpiece : Inline.piece s (.equation node) = .equation ⟨[], omml, node.isDisplay⟩ := by simp [Inline.piece, hvalue]
    rw [Inline.texts, if_pos hshown, hpiece, Inline.pieces, if_pos hshown, hpiece]
    rw [← List.append_nil (Inline.calls s (.equation node))]
    show Yields _ ([] ++ []) _ _
    refine hmarkup.bind ?_
    rintro _ rfl
    rw [hvalue]
    exact (yields_register omml node.isDisplay).map _ fun _ _ => rfl
  | none =>
    have hpiece : Inline.piece s (.equation node) = .run (s.run (s.fallback node) ⟨false, false, true⟩ false) := by
      simp [Inline.piece, hvalue]
    rw [← List.append_nil (Inline.calls s (.equation node)), ← List.nil_append (Inline.texts s (.equation node))]
    refine hmarkup.bind ?_
    rintro _ rfl
    rw [hvalue]
    by_cases hempty : (s.fallback node).isEmpty
    · have hshown : Inline.isShown s (.equation node) = false := by simp [Inline.isShown, hvalue, hempty]
      rw [Inline.texts, Inline.pieces, hshown]
      show Yields (if (s.fallback node).isEmpty then pure [] else _) _ _ _
      rw [if_pos hempty]
      exact (Yields.pure _).mono fun _ h => by rw [h]; rfl
    · have hshown : Inline.isShown s (.equation node) = true := by simp [Inline.isShown, hvalue, hempty]
      rw [Inline.texts, Inline.pieces, if_pos hshown, if_pos hshown, hpiece]
      show Yields (if (s.fallback node).isEmpty then pure [] else _) _ _ _
      rw [if_neg hempty]
      refine (yields_composeText s _ _ _).map _ ?_
      rintro _ rfl
      rfl

theorem yields_composeInline (p : Inline) : Yields (composeInline s p) (p.texts s) (p.calls s)
    fun pieces => pieces.map Piece.untokened = p.pieces s := by
  cases p with
  | text content look broken =>
    refine (yields_composeText s content look broken).map _ ?_
    rintro _ rfl
    rfl
  | equation node => exact yields_composeEquation s node

theorem yields_composeInlines (content : List Inline) :
    Yields (composeInlines s content) (content.flatMap (·.texts s)) (content.flatMap (·.calls s))
      fun pieces => pieces.map Piece.untokened = content.flatMap (·.pieces s) := by
  induction content with
  | nil => exact (Yields.pure _).mono fun _ h => by rw [h]; rfl
  | cons p rest ih =>
    refine (yields_composeInline s p).bind fun first hfirst => ih.map _ fun later hlater => ?_
    rw [List.map_append, hfirst, hlater, List.flatMap_cons]

/-- What becomes something is the pieces that show, each by itself. -/
theorem flatMap_pieces (content : List Inline) :
    content.flatMap (·.pieces s) = (content.filter (·.isShown s)).map (·.piece s) := by
  induction content with
  | nil => rfl
  | cons p rest ih =>
    rw [List.flatMap_cons, List.filter_cons, Inline.pieces, ih]
    split <;> rfl

/-- Settling a paragraph and dropping what shows nothing from it come to the same. -/
theorem mapBlocks_settle (p : Paragraph Inline) {pieces : List Piece}
    (h : pieces.map Piece.untokened = p.content.flatMap (·.pieces s)) :
    mapBlocks Piece.untokened (p.settle pieces) = mapBlocks (·.piece s) (p.settled s) := by
  rw [flatMap_pieces] at h
  have hempty : pieces.isEmpty = (p.content.filter (·.isShown s)).isEmpty := by
    rw [← List.isEmpty_map (f := Piece.untokened), h, List.isEmpty_map]
  rw [Paragraph.settle, Paragraph.settled, hempty]
  split
  · cases p.whenEmpty <;> rfl
  · simp [mapBlocks, Block.map, Paragraph.map, h]

mutual

theorem yields_composeBlock : ∀ block : Block Inline,
    Yields (composeBlock s block) (block.content.flatMap (·.texts s)) (block.content.flatMap (·.calls s))
      fun blocks => mapBlocks Piece.untokened blocks = mapBlocks (·.piece s) (settledBlock s block)
  | .paragraph p => by
    rw [composeBlock, Block.content, settledBlock]
    exact (yields_composeInlines s p.content).map _ fun _ h => mapBlocks_settle s p h
  | .table rows => by
    rw [composeBlock, Block.content, settledBlock]
    refine (yields_composeRows rows).map _ fun _ h => ?_
    simp only [mapBlocks, Block.map, h]

theorem yields_composeBlocks : ∀ blocks : List (Block Inline),
    Yields (composeBlocks s blocks) ((contentOfBlocks blocks).flatMap (·.texts s))
      ((contentOfBlocks blocks).flatMap (·.calls s))
      fun composed => mapBlocks Piece.untokened composed = mapBlocks (·.piece s) (settledBlocks s blocks)
  | [] => by
    rw [composeBlocks]
    exact (Yields.pure _).mono fun _ h => by rw [h]; rfl
  | block :: rest => by
    rw [composeBlocks, contentOfBlocks, List.flatMap_append, List.flatMap_append, settledBlocks]
    refine (yields_composeBlock block).bind fun _ hfirst => (yields_composeBlocks rest).map _ fun _ hlater => ?_
    rw [mapBlocks_append, mapBlocks_append, hfirst, hlater]

theorem yields_composeCells : ∀ cells : List (List (Block Inline)),
    Yields (composeCells s cells) ((contentOfCells cells).flatMap (·.texts s))
      ((contentOfCells cells).flatMap (·.calls s))
      fun composed => mapCells Piece.untokened composed = mapCells (·.piece s) (settledCells s cells)
  | [] => by
    rw [composeCells]
    exact (Yields.pure _).mono fun _ h => by rw [h]; rfl
  | cell :: rest => by
    rw [composeCells, contentOfCells, List.flatMap_append, List.flatMap_append, settledCells]
    refine (yields_composeBlocks cell).bind fun _ hfirst => (yields_composeCells rest).map _ fun _ hlater => ?_
    rw [mapCells, mapCells, hfirst, hlater]

theorem yields_composeRows : ∀ rows : List (List (List (Block Inline))),
    Yields (composeRows s rows) ((contentOfRows rows).flatMap (·.texts s)) ((contentOfRows rows).flatMap (·.calls s))
      fun composed => mapRows Piece.untokened composed = mapRows (·.piece s) (settledRows s rows)
  | [] => by
    rw [composeRows]
    exact (Yields.pure _).mono fun _ h => by rw [h]; rfl
  | row :: rest => by
    rw [composeRows, contentOfRows, List.flatMap_append, List.flatMap_append, settledRows]
    refine (yields_composeCells row).bind fun _ hfirst => (yields_composeRows rest).map _ fun _ hlater => ?_
    rw [mapRows, mapRows, hfirst, hlater]

end

/-! ### Whole outlines -/

/-- The texts that have to be writable for a document: the font of its equations and the texts of its pieces. -/
def textsOf (outline : List (Block Inline)) : List Text :=
  s.settings.mathFont :: (contentOfBlocks outline).flatMap (·.texts s)

variable {s} {outline : List (Block Inline)}

/-- An outline whose texts can be written is composed, piece by piece. -/
theorem exists_compose_eq (h : Writable (textsOf s outline)) : ∃ blocks registry,
    (compose s outline).value = .ok (blocks, registry) ∧
      (compose s outline).calls = (contentOfBlocks outline).flatMap (·.calls s) ∧
      mapBlocks Piece.untokened blocks = mapBlocks (·.piece s) (settledBlocks s outline) := by
  have hyields := (yields_allow s.settings.mathFont).bind fun _ _ => yields_composeBlocks s outline
  exact let ⟨blocks, registry, hall⟩ := hyields.ok h .empty; ⟨blocks, registry, hall⟩

/-- An outline with a text that cannot be written is refused, after some of the equations have been converted. -/
theorem compose_eq_error (h : ¬ Writable (textsOf s outline)) :
    (compose s outline).value = .error .forbiddenCharacter ∧
      (compose s outline).calls <+: (contentOfBlocks outline).flatMap (·.calls s) := by
  have hyields := (yields_allow s.settings.mathFont).bind fun _ _ => yields_composeBlocks s outline
  exact hyields.refused h .empty

/-- What is composed has the pieces of the outline, but for what is dropped and for the tokens. -/
theorem untokened_of_compose {composed : List (Block Piece)} {registry : Registry}
    (h : (compose s outline).value = .ok (composed, registry)) :
    mapBlocks Piece.untokened composed = mapBlocks (·.piece s) (settledBlocks s outline) :=
  ((yields_allow s.settings.mathFont).bind fun _ _ => yields_composeBlocks s outline).post_of_ok (r := .empty) h

/-- The finished pieces of a composed document are those of the outline. -/
theorem writeBlocks_finished {blocks : List (Block Piece)}
    (h : mapBlocks Piece.untokened blocks = mapBlocks (·.piece s) (settledBlocks s outline)) :
    writeBlocks Piece.finished blocks = writeBlocks (·.finished s) (settledBlocks s outline) := by
  have hsame := congrArg (writeBlocks Piece.finished) h
  rw [writeBlocks_mapBlocks, writeBlocks_mapBlocks] at hsame
  rwa [show Piece.finished ∘ Piece.untokened = Piece.finished from funext Piece.finished_untokened] at hsame

/-! ### What is dropped -/

section Dropped

variable (s) {keep : Inline → Bool}

theorem Paragraph.filter_content_settled (hkeep : keep (.text [] .plain false) = false) (p : Paragraph Inline) :
    (contentOfBlocks (p.settled s)).filter keep = (p.content.filter (·.isShown s)).filter keep := by
  rw [Paragraph.settled]
  split
  · next hnone =>
    rw [List.isEmpty_iff.1 hnone]
    cases p.whenEmpty <;> simp [contentOfBlocks, Block.content, hkeep]
  · simp [contentOfBlocks, Block.content]

mutual

theorem filter_content_settledBlock (hkeep : keep (.text [] .plain false) = false) : ∀ block : Block Inline,
    (contentOfBlocks (settledBlock s block)).filter keep = (block.content.filter (·.isShown s)).filter keep
  | .paragraph p => by
    rw [settledBlock, Block.content]
    exact p.filter_content_settled s hkeep
  | .table rows => by
    rw [settledBlock, contentOfBlocks, contentOfBlocks, List.append_nil, Block.content, Block.content]
    exact filter_content_settledRows hkeep rows

theorem filter_content_settledRows (hkeep : keep (.text [] .plain false) = false) :
    ∀ rows : List (List (List (Block Inline))),
    (contentOfRows (settledRows s rows)).filter keep = ((contentOfRows rows).filter (·.isShown s)).filter keep
  | [] => rfl
  | row :: rest => by
    simp only [settledRows, contentOfRows, List.filter_append, filter_content_settledCells hkeep row,
      filter_content_settledRows hkeep rest]

theorem filter_content_settledCells (hkeep : keep (.text [] .plain false) = false) : ∀ cells : List (List (Block Inline)),
    (contentOfCells (settledCells s cells)).filter keep = ((contentOfCells cells).filter (·.isShown s)).filter keep
  | [] => rfl
  | cell :: rest => by
    simp only [settledCells, contentOfCells, List.filter_append, filter_content_settledBlocks hkeep cell,
      filter_content_settledCells hkeep rest]

/-- Only pieces that show nothing are dropped, and only blank pieces are put in. -/
theorem filter_content_settledBlocks (hkeep : keep (.text [] .plain false) = false) : ∀ blocks : List (Block Inline),
    (contentOfBlocks (settledBlocks s blocks)).filter keep = ((contentOfBlocks blocks).filter (·.isShown s)).filter keep
  | [] => rfl
  | block :: rest => by
    simp only [settledBlocks, contentOfBlocks_append, contentOfBlocks, List.filter_append,
      filter_content_settledBlock hkeep block, filter_content_settledBlocks hkeep rest]

end

end Dropped

theorem mem_content_settledBlocks {p : Inline} (h : p ∈ contentOfBlocks (settledBlocks s outline)) :
    p = .text [] .plain false ∨ p ∈ contentOfBlocks outline ∧ p.isShown s = true := by
  classical
  by_cases hblank : p = .text [] .plain false
  · exact .inl hblank
  · have hkeep : decide (Inline.text [] .plain false = p) = false := decide_eq_false (Ne.symm hblank)
    have hmem : p ∈ (contentOfBlocks (settledBlocks s outline)).filter fun q => decide (q = p) :=
      List.mem_filter.2 ⟨h, decide_eq_true rfl⟩
    rw [filter_content_settledBlocks s hkeep] at hmem
    exact .inr (List.mem_filter.1 (List.mem_filter.1 hmem).1)

/-! ### Whole pages -/

variable {html : Text} (houtline : Document.outline html = .ok outline)

include houtline

/-- A page with a text that cannot be written becomes no document. -/
theorem create_eq_error (h : ¬ Writable (textsOf s outline)) :
    (create s html).value = .error (.unwritable .forbiddenCharacter) := by
  rw [create, houtline, Traced.value_bind, (compose_eq_error h).1]
  rfl

/-- The pieces of the document of a page are those of the outline, but for what is dropped and for the tokens. -/
theorem untokened_piecesOf (h : Writable (textsOf s outline)) :
    (piecesOf s html).map Piece.untokened = (contentOfBlocks (settledBlocks s outline)).map (·.piece s) := by
  obtain ⟨blocks, registry, hcompose, -, hblocks⟩ := exists_compose_eq h
  have hpieces : piecesOf s html = contentOfBlocks blocks := by simp only [piecesOf, houtline, hcompose]
  rw [hpieces, ← contentOfBlocks_map, ← contentOfBlocks_map, hblocks]

/-- If no token is met before its time, the document of a page is its outline with every piece finished. -/
theorem create_eq_finished (h : Writable (textsOf s outline)) (hundisturbed : Undisturbed (piecesOf s html)) :
    (create s html).value =
      .ok ⟨textOf (writeBlocks (·.finished s) (settledBlocks s outline)), s.settings.mathFont⟩ := by
  obtain ⟨blocks, registry, hcompose, -, hblocks⟩ := exists_compose_eq h
  rw [(value_create_eq_intended_iff s html).2 hundisturbed, intended, houtline, Traced.value_bind, hcompose,
    ← writeBlocks_finished hblocks]
  rfl

end EquationExport.Document
