import EquationExport.Document.Write
import EquationExport.Proofs.Splice.Token

/-!
# The frame of a written document

However the pieces of a document are written, what is written around them is the same: tags, in which no
underscore occurs. So a written document is its frame with the pieces in their places, in the order of the
document, and no token is read in the frame.
-/

namespace EquationExport.Document

open EquationExport.Text

/-! ### The content of blocks -/

section Content

variable {α : Type}

mutual

/-- The pieces of a block, in the order of the document. -/
def Block.content : Block α → List α
  | .paragraph p => p.content
  | .table rows => contentOfRows rows

/-- The pieces of the rows of a table. -/
def contentOfRows : List (List (List (Block α))) → List α
  | [] => []
  | row :: rest => contentOfCells row ++ contentOfRows rest

/-- The pieces of the cells of a row. -/
def contentOfCells : List (List (Block α)) → List α
  | [] => []
  | cell :: rest => contentOfBlocks cell ++ contentOfCells rest

/-- The pieces of some blocks. -/
def contentOfBlocks : List (Block α) → List α
  | [] => []
  | block :: rest => block.content ++ contentOfBlocks rest

end

theorem contentOfBlocks_append (blocks more : List (Block α)) :
    contentOfBlocks (blocks ++ more) = contentOfBlocks blocks ++ contentOfBlocks more := by
  induction blocks with
  | nil => rfl
  | cons block blocks ih => simp [contentOfBlocks, ih]

end Content

/-! ### Text without underscores -/

theorem underscore_not_mem_ofNat (n : Nat) : CodePoint.ofChar '_' ∉ Text.ofNat n := by
  intro h
  obtain ⟨d, hd, heq⟩ := List.mem_map.1 h
  have hdigit := Nat.isDigit_of_mem_toDigits (by decide) (by decide) hd
  rw [CodePoint.ofChar_injective heq] at hdigit
  exact absurd hdigit (by decide)

theorem underscore_not_mem_escapeValue {s : Text} (h : CodePoint.ofChar '_' ∉ s) :
    CodePoint.ofChar '_' ∉ Xml.escapeValue s := by
  intro hmem
  obtain ⟨c, hc, hmem⟩ := List.mem_flatMap.1 hmem
  unfold Xml.escapeValuePoint at hmem
  split_ifs at hmem <;> first
    | exact absurd hmem (by decide)
    | exact h (List.mem_singleton.1 hmem ▸ hc)

theorem underscore_not_mem_around {name : String} {content : Text} (hname : CodePoint.ofChar '_' ∉ Text.ofString name)
    (h : CodePoint.ofChar '_' ∉ content) : CodePoint.ofChar '_' ∉ around name content := by
  have hmarks : CodePoint.ofChar '_' ∉ ("<w:" : Text) ∧ CodePoint.ofChar '_' ∉ (">" : Text) ∧
      CodePoint.ofChar '_' ∉ ("</w:" : Text) := by decide
  simp only [around, List.mem_append, not_or]
  exact ⟨⟨⟨⟨⟨⟨hmarks.1, hname⟩, hmarks.2.1⟩, h⟩, hmarks.2.2⟩, hname⟩, hmarks.2.1⟩

theorem underscore_not_mem_setting {name : String} {value : Text} (hname : CodePoint.ofChar '_' ∉ Text.ofString name)
    (h : CodePoint.ofChar '_' ∉ value) : CodePoint.ofChar '_' ∉ setting name value := by
  have hmarks : CodePoint.ofChar '_' ∉ (" " : Text) ∧ CodePoint.ofChar '_' ∉ ("w:" : Text) ∧
      CodePoint.ofChar '_' ∉ ("=\"" : Text) ∧ CodePoint.ofChar '_' ∉ ("\"" : Text) := by decide
  simp only [setting, Xml.writeValue, List.mem_append, not_or]
  exact ⟨⟨⟨⟨hmarks.1, hmarks.2.1, hname⟩, hmarks.2.2.1⟩, underscore_not_mem_escapeValue h⟩, hmarks.2.2.2⟩

theorem underscore_not_mem_empty {name : String} {settings : List (String × Text)}
    (hname : CodePoint.ofChar '_' ∉ Text.ofString name)
    (h : ∀ s ∈ settings, CodePoint.ofChar '_' ∉ Text.ofString s.1 ∧ CodePoint.ofChar '_' ∉ s.2) :
    CodePoint.ofChar '_' ∉ empty name settings := by
  have hmarks : CodePoint.ofChar '_' ∉ ("<w:" : Text) ∧ CodePoint.ofChar '_' ∉ ("/>" : Text) := by decide
  simp only [empty, List.mem_append, not_or, List.mem_flatMap, not_exists, not_and]
  exact ⟨⟨⟨hmarks.1, hname⟩, fun s hs => underscore_not_mem_setting (h s hs).1 (h s hs).2⟩, hmarks.2⟩

theorem ParagraphKind.underscore_not_mem_write (kind : ParagraphKind) : CodePoint.ofChar '_' ∉ kind.write := by
  have hstyle : ∀ name ∈ kind.style?, CodePoint.ofChar '_' ∉ empty "pStyle" [("val", name)] := by
    intro name hname
    have hval : CodePoint.ofChar '_' ∉ Text.ofString "val" := by decide
    refine underscore_not_mem_empty (by decide) (List.forall_mem_singleton.2 ⟨hval, ?_⟩)
    cases kind with
    | heading level =>
      rw [← Option.mem_some.1 hname, List.mem_append, not_or]
      exact ⟨by decide, underscore_not_mem_ofNat level⟩
    | item ordered depth =>
      have hlist : CodePoint.ofChar '_' ∉ (if ordered then ("ListNumber" : Text) else "ListBullet") := by
        cases ordered <;> decide
      rw [← Option.mem_some.1 hname]
      simp only
      split
      · exact hlist
      · rw [List.mem_append, not_or]
        exact ⟨hlist, underscore_not_mem_ofNat _⟩
    | _ => cases hname
  have hcode : CodePoint.ofChar '_' ∉ (if kind = .code then codeBox else []) := by
    split
    · decide +kernel
    · exact List.not_mem_nil
  have hlayout : CodePoint.ofChar '_' ∉ kind.layout := by
    unfold ParagraphKind.layout
    split <;> decide +kernel
  refine underscore_not_mem_around (by decide) ?_
  simp only [List.mem_append, not_or]
  refine ⟨⟨?_, hcode⟩, hlayout⟩
  split
  · next name hname => exact hstyle name hname
  · exact List.not_mem_nil

theorem underscore_not_mem_tableProperties : CodePoint.ofChar '_' ∉ tableProperties := by decide +kernel

theorem underscore_not_mem_w : CodePoint.ofChar '_' ∉ Text.ofString "w" := by decide

theorem underscore_not_mem_cellProperties (header : Bool) (width : Nat) :
    CodePoint.ofChar '_' ∉ cellProperties header width := by
  have hwidth : CodePoint.ofChar '_' ∉ empty "tcW" [("type", "dxa"), ("w", Text.ofNat width)] :=
    underscore_not_mem_empty (by decide) (List.forall_mem_cons.2 ⟨by decide, List.forall_mem_singleton.2
      ⟨underscore_not_mem_w, underscore_not_mem_ofNat width⟩⟩)
  have hshading : CodePoint.ofChar '_' ∉ (if header then shading "E2E8F0" else []) := by cases header <;> decide +kernel
  refine underscore_not_mem_around (by decide) ?_
  rw [List.mem_append, not_or]
  exact ⟨hwidth, hshading⟩

theorem underscore_not_mem_grid (columns width : Nat) :
    CodePoint.ofChar '_' ∉ around "tblGrid" (List.replicate columns (empty "gridCol" [("w", Text.ofNat width)])).flatten := by
  refine underscore_not_mem_around (by decide) fun h => ?_
  obtain ⟨column, hcolumn, hmem⟩ := List.mem_flatten.1 h
  rw [List.eq_of_mem_replicate hcolumn] at hmem
  exact underscore_not_mem_empty (by decide)
    (List.forall_mem_singleton.2 ⟨underscore_not_mem_w, underscore_not_mem_ofNat width⟩) hmem

/-! ### Frames -/

/-- A part of a written document: a piece, or some of what is written around the pieces. -/
inductive Segment (α : Type) where
  | frame (f : Text)
  | piece (a : α)

/-- A part of a document as it is written. -/
def Segment.write (piece : α → Text) : Segment α → Text
  | .frame f => f
  | .piece a => piece a

/-- The piece that a part is. -/
def Segment.piece? : Segment α → Option α
  | .frame _ => none
  | .piece a => some a

/-- What is written around pieces: it begins with a tag, and no underscore occurs in it. -/
structure IsFrame (f : Text) : Prop where
  tag : f.head? = some (CodePoint.ofChar '<')
  clean : CodePoint.ofChar '_' ∉ f

/--
A way to write something around pieces, given the way to write a piece: it is a sequence of frames and pieces,
the same one for every way to write a piece.
-/
def Framed (write : (α → Text) → Text) (content : List α) : Prop :=
  ∃ segments : List (Segment α), (∀ piece, write piece = segments.flatMap (·.write piece)) ∧
    (∀ f, .frame f ∈ segments → IsFrame f) ∧ segments.filterMap Segment.piece? = content

namespace Framed

variable {α : Type}

theorem nil : Framed (fun _ : α → Text => []) [] := ⟨[], fun _ => rfl, by simp, rfl⟩

theorem frame {f : Text} (h : IsFrame f) : Framed (fun _ : α → Text => f) [] :=
  ⟨[.frame f], fun _ => by simp [Segment.write], by simpa using h, rfl⟩

theorem pieces (content : List α) : Framed (fun piece => content.flatMap piece) content := by
  refine ⟨content.map .piece, fun piece => ?_, fun f hf => ?_, ?_⟩
  · simp only [List.flatMap_map, Segment.write]
  · obtain ⟨a, -, ha⟩ := List.mem_map.1 hf
    cases ha
  · rw [List.filterMap_map]
    exact List.filterMap_some

theorem append {write more : (α → Text) → Text} {content rest : List α} (h : Framed write content)
    (h' : Framed more rest) : Framed (fun piece => write piece ++ more piece) (content ++ rest) := by
  obtain ⟨segments, hwrite, hframes, rfl⟩ := h
  obtain ⟨segments', hwrite', hframes', rfl⟩ := h'
  refine ⟨segments ++ segments', fun piece => ?_, fun f hf => ?_, List.filterMap_append⟩
  · rw [List.flatMap_append, ← hwrite, ← hwrite']
  · exact (List.mem_append.1 hf).elim (hframes f) (hframes' f)

/-- An element around what is framed. -/
theorem around {write : (α → Text) → Text} {content : List α} (name : String)
    (hname : CodePoint.ofChar '_' ∉ Text.ofString name) (h : Framed write content) :
    Framed (fun piece => Document.around name (write piece)) content := by
  have hmarks : CodePoint.ofChar '_' ∉ ("<w:" : Text) ∧ CodePoint.ofChar '_' ∉ (">" : Text) ∧
      CodePoint.ofChar '_' ∉ ("</w:" : Text) := by decide
  have hopening : IsFrame (("<w:" : Text) ++ Text.ofString name ++ (">" : Text)) :=
    ⟨rfl, by simp only [List.mem_append, not_or]; exact ⟨⟨hmarks.1, hname⟩, hmarks.2.1⟩⟩
  have hclosing : IsFrame (("</w:" : Text) ++ Text.ofString name ++ (">" : Text)) :=
    ⟨rfl, by simp only [List.mem_append, not_or]; exact ⟨⟨hmarks.2.2, hname⟩, hmarks.2.1⟩⟩
  have hframed := ((Framed.frame hopening).append h).append (Framed.frame hclosing)
  rw [List.nil_append, List.append_nil] at hframed
  simpa only [Document.around, List.append_assoc] using hframed

end Framed

/-! ### The writer -/

theorem Paragraph.framed (p : Paragraph α) : Framed (fun piece => p.write piece) p.content := by
  have hproperties : IsFrame p.kind.write := ⟨rfl, p.kind.underscore_not_mem_write⟩
  have hframed := (Framed.frame hproperties).append (Framed.pieces p.content)
  exact hframed.around "p" (by decide)

theorem isFrame_blankParagraph : IsFrame blankParagraph := ⟨rfl, by decide⟩

mutual

theorem Block.framed (width : Nat) : ∀ block : Block α, Framed (fun piece => block.write piece width) block.content
  | .paragraph p => by
    simpa only [Block.write, Block.content] using p.framed
  | .table rows => by
    have htable : IsFrame tableProperties := ⟨rfl, underscore_not_mem_tableProperties⟩
    have hgrid : IsFrame (around "tblGrid" (List.replicate ((rows.head?.map List.length).getD 1)
        (empty "gridCol" [("w", Text.ofNat (width / (rows.head?.map List.length).getD 1))])).flatten) :=
      ⟨rfl, underscore_not_mem_grid _ _⟩
    have hrows := framed_writeRows (width / (rows.head?.map List.length).getD 1) true rows
    have hframed := ((Framed.frame htable).append (Framed.frame hgrid)).append hrows
    simpa only [Block.write, Block.content, List.nil_append] using hframed.around "tbl" (by decide)

theorem framed_writeRows (width : Nat) (header : Bool) :
    ∀ rows : List (List (List (Block α))), Framed (fun piece => writeRows piece width header rows) (contentOfRows rows)
  | [] => by simpa only [writeRows, contentOfRows] using Framed.nil
  | row :: rest => by
    have hrow := (framed_writeCells width header row).around "tr" (by decide)
    simpa only [writeRows, contentOfRows] using hrow.append (framed_writeRows width false rest)

theorem framed_writeCells (width : Nat) (header : Bool) :
    ∀ cells : List (List (Block α)), Framed (fun piece => writeCells piece width header cells) (contentOfCells cells)
  | [] => by simpa only [writeCells, contentOfCells] using Framed.nil
  | cell :: rest => by
    have hproperties : IsFrame (cellProperties header width) := ⟨rfl, underscore_not_mem_cellProperties header width⟩
    have hinside : Framed (fun piece => if cell.isEmpty then blankParagraph else writeCell piece width cell)
        (contentOfBlocks cell) := by
      cases cell with
      | nil => exact Framed.frame isFrame_blankParagraph
      | cons block blocks => exact framed_writeCell width (block :: blocks)
    have hcell := ((Framed.frame hproperties).append hinside).around "tc" (by decide)
    simpa only [writeCells, contentOfCells, List.nil_append] using hcell.append (framed_writeCells width header rest)

theorem framed_writeCell (width : Nat) :
    ∀ blocks : List (Block α), Framed (fun piece => writeCell piece width blocks) (contentOfBlocks blocks)
  | [] => by simpa only [writeCell, contentOfBlocks] using Framed.nil
  | block :: rest => by
    have hafter : Framed (fun _ : α → Text => if block.isTable then blankParagraph else []) [] := by
      split
      · exact Framed.frame isFrame_blankParagraph
      · exact Framed.nil
    have hblock := ((block.framed width).append hafter).append (framed_writeCell width rest)
    simpa only [writeCell, contentOfBlocks, List.append_nil] using hblock

end

theorem framed_writeBlocks (blocks : List (Block α)) :
    Framed (fun piece => writeBlocks piece blocks) (contentOfBlocks blocks) := by
  induction blocks with
  | nil => exact Framed.nil
  | cons block blocks ih => exact (block.framed pageWidth).append ih

end EquationExport.Document
