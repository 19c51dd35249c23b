import EquationExport.Document.Compose
import EquationExport.Proofs.Document.Frame

/-!
# What composing registers

Composing registers the equations of the document it makes, in the order of the document, and no others. The
statement is about a computation and what it registers while it yields a value; it is put together along the
computations that composing is made of.
-/

namespace EquationExport.Document

/-- The equation that a piece is. -/
def Piece.item? : Piece → Option Replacement
  | .run _ => none
  | .equation item => some item

/-- The equations among some pieces. -/
def equations (pieces : List Piece) : List Replacement := pieces.filterMap Piece.item?

@[simp] theorem equations_nil : equations [] = [] := rfl

@[simp] theorem equations_append (pieces more : List Piece) :
    equations (pieces ++ more) = equations pieces ++ equations more := List.filterMap_append

/-! ### Computations that register -/

/-- What a computation gives, from a registry on. -/
def Composing.valueFrom (m : Composing α) (r : Registry) : Except Xml.Unwritable (α × Registry) := (m.run r).run.value

theorem Composing.valueFrom_bind (m : Composing α) (k : α → Composing β) (r : Registry) :
    Composing.valueFrom (m >>= k) r =
      (Composing.valueFrom m r).bind fun (a, r') => Composing.valueFrom (k a) r' := by
  have hrun : Composing.valueFrom (m >>= k) r =
      (ExceptT.bindCont (fun found => ((k found.1).run found.2)) (m.valueFrom r)).value := rfl
  rw [hrun]
  cases m.valueFrom r with
  | error e => rfl
  | ok found => rfl

/--
Whenever the computation yields a value, it has registered some equations after those in the registry, and
these equations go with the value.
-/
def Registers (m : Composing α) (post : α → List Replacement → Prop) : Prop :=
  ∀ r a r', r.Numbered → m.valueFrom r = .ok (a, r') →
    ∃ items, r'.Numbered ∧ r'.replacements = r.replacements ++ items ∧ post a items

namespace Registers

variable {α β : Type}

theorem pure (a : α) : Registers (Pure.pure a) fun b items => b = a ∧ items = [] := by
  intro r b r' hr h
  cases h
  exact ⟨[], hr, (List.append_nil _).symm, rfl, rfl⟩

theorem bind {m : Composing α} {k : α → Composing β} {post : α → List Replacement → Prop}
    {post' : β → List Replacement → Prop} (hm : Registers m post)
    (hk : ∀ a items, post a items → Registers (k a) fun b more => post' b (items ++ more)) :
    Registers (m >>= k) post' := by
  intro r b r'' hr h
  rw [Composing.valueFrom_bind] at h
  cases hvalue : m.valueFrom r with
  | error e => rw [hvalue] at h; cases h
  | ok found =>
    rw [hvalue] at h
    obtain ⟨items, hr', hitems, hpost⟩ := hm r found.1 found.2 hr hvalue
    obtain ⟨more, hr'', hmore, hpost'⟩ := hk found.1 items hpost found.2 b r'' hr' h
    exact ⟨items ++ more, hr'', by rw [hmore, hitems, List.append_assoc], hpost'⟩

theorem mono {m : Composing α} {post post' : α → List Replacement → Prop} (hm : Registers m post)
    (h : ∀ a items, post a items → post' a items) : Registers m post' := by
  intro r a r' hr hvalue
  obtain ⟨items, hr', hitems, hpost⟩ := hm r a r' hr hvalue
  exact ⟨items, hr', hitems, h a items hpost⟩

end Registers

/-- The computation registers nothing. -/
abbrev Quiet (m : Composing α) : Prop := Registers m fun _ items => items = []

theorem quiet_allow (s : Text) : Quiet (allow s) := by
  intro r a r' hr h
  unfold allow at h
  split at h
  · cases h
    exact ⟨[], hr, (List.append_nil _).symm, rfl⟩
  · cases h

theorem quiet_composeText (s : Surroundings) (content : Text) (look : Look) (broken : Bool) :
    Quiet (composeText s content look broken) := by
  refine (quiet_allow content).bind ?_
  rintro content _ rfl
  split
  · refine (quiet_allow s.settings.codeFont).bind ?_
    rintro font _ rfl
    exact (Registers.pure _).mono fun _ _ h => h.2
  · exact (Registers.pure _).mono fun _ _ h => h.2

theorem quiet_markupOf (s : Surroundings) (node : Html.Node) : Quiet (markupOf s node) := by
  have hlift : Quiet (liftM ((node.sources s.settings.maxTitleLatexLength).build s.converters) :
      Composing (Option Text)) := by
    intro r a r' hr h
    cases h
    exact ⟨[], hr, (List.append_nil _).symm, rfl⟩
  refine hlift.bind ?_
  rintro markup _ rfl
  exact (Registers.pure _).mono fun _ _ h => h.2

theorem registers_modifyGet (omml : Text) (display : Bool) :
    Registers (modifyGet fun registry => registry.register omml display : Composing Text)
      fun token items => items = [⟨token, omml, display⟩] := by
  intro r a r' hr h
  cases h
  exact ⟨_, hr.register omml display, rfl, rfl⟩

/-! ### Composing -/

variable (s : Surroundings)

theorem registers_composeEquation (node : Html.Node) :
    Registers (composeEquation s node) fun pieces items => equations pieces = items := by
  refine (quiet_markupOf s node).bind ?_
  rintro markup _ rfl
  cases markup with
  | some omml =>
    refine (registers_modifyGet omml node.isDisplay).bind ?_
    rintro token _ rfl
    refine (Registers.pure _).mono ?_
    rintro _ _ ⟨rfl, rfl⟩
    rfl
  | none =>
    simp only
    split
    · refine (Registers.pure _).mono ?_
      rintro _ _ ⟨rfl, rfl⟩
      rfl
    · refine (quiet_composeText s _ _ _).bind ?_
      rintro run _ rfl
      refine (Registers.pure _).mono ?_
      rintro _ _ ⟨rfl, rfl⟩
      rfl

theorem registers_composeInline (piece : Inline) :
    Registers (composeInline s piece) fun pieces items => equations pieces = items := by
  cases piece with
  | text content look broken =>
    refine (quiet_composeText s content look broken).bind ?_
    rintro run _ rfl
    refine (Registers.pure _).mono ?_
    rintro _ _ ⟨rfl, rfl⟩
    rfl
  | equation node => exact registers_composeEquation s node

theorem registers_composeInlines (pieces : List Inline) :
    Registers (composeInlines s pieces) fun pieces items => equations pieces = items := by
  induction pieces with
  | nil =>
    refine (Registers.pure _).mono ?_
    rintro _ _ ⟨rfl, rfl⟩
    rfl
  | cons piece rest ih =>
    refine (registers_composeInline s piece).bind ?_
    rintro first _ rfl
    refine ih.bind ?_
    rintro later _ rfl
    refine (Registers.pure _).mono ?_
    rintro _ _ ⟨rfl, rfl⟩
    simp

/-- Settling a paragraph keeps its equations. -/
theorem equations_settle (p : Paragraph Inline) (pieces : List Piece) :
    equations (contentOfBlocks (p.settle pieces)) = equations pieces := by
  unfold Paragraph.settle
  cases pieces with
  | nil =>
    simp only [List.isEmpty_nil, if_true]
    split <;> rfl
  | cons piece rest => simp [contentOfBlocks, Block.content]

mutual

theorem registers_composeBlock :
    ∀ block : Block Inline, Registers (composeBlock s block) fun blocks items => equations (contentOfBlocks blocks) = items
  | .paragraph p => by
    rw [composeBlock]
    refine (registers_composeInlines s p.content).bind ?_
    rintro pieces _ rfl
    refine (Registers.pure _).mono ?_
    rintro _ _ ⟨rfl, rfl⟩
    rw [equations_settle, List.append_nil]
  | .table rows => by
    rw [composeBlock]
    refine (registers_composeRows rows).bind ?_
    rintro rows _ rfl
    refine (Registers.pure _).mono ?_
    rintro _ _ ⟨rfl, rfl⟩
    simp [contentOfBlocks, Block.content]

theorem registers_composeBlocks : ∀ blocks : List (Block Inline),
    Registers (composeBlocks s blocks) fun blocks items => equations (contentOfBlocks blocks) = items
  | [] => by
    rw [composeBlocks]
    refine (Registers.pure _).mono ?_
    rintro _ _ ⟨rfl, rfl⟩
    rfl
  | block :: rest => by
    rw [composeBlocks]
    refine (registers_composeBlock block).bind ?_
    rintro first _ rfl
    refine (registers_composeBlocks rest).bind ?_
    rintro later _ rfl
    refine (Registers.pure _).mono ?_
    rintro _ _ ⟨rfl, rfl⟩
    simp [contentOfBlocks_append]

theorem registers_composeCells : ∀ cells : List (List (Block Inline)),
    Registers (composeCells s cells) fun cells items => equations (contentOfCells cells) = items
  | [] => by
    rw [composeCells]
    refine (Registers.pure _).mono ?_
    rintro _ _ ⟨rfl, rfl⟩
    rfl
  | cell :: rest => by
    rw [composeCells]
    refine (registers_composeBlocks cell).bind ?_
    rintro first _ rfl
    refine (registers_composeCells rest).bind ?_
    rintro later _ rfl
    refine (Registers.pure _).mono ?_
    rintro _ _ ⟨rfl, rfl⟩
    simp [contentOfCells]

theorem registers_composeRows : ∀ rows : List (List (List (Block Inline))),
    Registers (composeRows s rows) fun rows items => equations (contentOfRows rows) = items
  | [] => by
    rw [composeRows]
    refine (Registers.pure _).mono ?_
    rintro _ _ ⟨rfl, rfl⟩
    rfl
  | row :: rest => by
    rw [composeRows]
    refine (registers_composeCells row).bind ?_
    rintro first _ rfl
    refine (registers_composeRows rest).bind ?_
    rintro later _ rfl
    refine (Registers.pure _).mono ?_
    rintro _ _ ⟨rfl, rfl⟩
    simp [contentOfRows]

end

/-- A composed document holds the equations of its registry, in order. -/
theorem equations_of_compose {s : Surroundings} {outline : List (Block Inline)} {blocks : List (Block Piece)}
    {registry : Registry} (h : (compose s outline).value = .ok (blocks, registry)) :
    registry.Numbered ∧ registry.replacements = equations (contentOfBlocks blocks) := by
  have hcompose : Registers (do
      let _ ← allow s.settings.mathFont
      composeBlocks s outline) fun blocks items => equations (contentOfBlocks blocks) = items := by
    refine (quiet_allow s.settings.mathFont).bind ?_
    rintro _ _ rfl
    exact registers_composeBlocks s outline
  obtain ⟨items, hnumbered, hitems, rfl⟩ := hcompose .empty blocks registry Registry.numbered_empty h
  exact ⟨hnumbered, hitems⟩

end EquationExport.Document
