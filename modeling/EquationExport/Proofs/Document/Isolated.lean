import EquationExport.Proofs.Document.Finished
import EquationExport.Proofs.Xml.Escape

/-!
# A failing equation stays by itself

If one equation cannot be converted, it takes no token, and all later equations have other tokens than they would
have had. In the finished document this is not to be seen: apart from the places of the one equation, the document is
the same however that equation is converted. This needs that nothing else in the document looks like a token,
and that something is shown for the equation in any case.
-/

namespace EquationExport.Document

open EquationExport.Text EquationExport.Splice
open EquationExport.Html (Node)

/-! ### Tokens -/

/-- What every token begins with. -/
def mark : Text := "__MATH_"

theorem mark_isInfix {t s : Text} (ht : IsToken t) (h : t <:+: s) : mark <:+: s := by
  obtain ⟨n, rfl⟩ := ht
  exact List.IsInfix.trans ⟨[], numeral n ++ ("__" : Text), by rw [token_eq, List.nil_append, List.append_assoc]; rfl⟩ h

/-- A token that is read in an escaped text is in the text. -/
theorem infix_of_infix_escape {escape : CodePoint → Text} (hescape : Xml.IsEscape escape) {t s : Text} (ht : IsToken t)
    (h : t <:+: s.flatMap escape) : t <:+: s := by
  have hamp : CodePoint.ofChar '&' ∉ t := ht.not_mem (by decide)
  obtain ⟨n, rfl⟩ := ht
  obtain ⟨front, rear, heq⟩ := h
  rw [List.append_assoc] at heq
  obtain ⟨f, r, rfl, -⟩ := hescape.exists_of_isInfix (by decide) hamp heq.symm
  exact ⟨f, r, by rw [List.append_assoc]; rfl⟩

/-! ### Tokens in what is written -/

section Written

variable {t : Text} (ht : IsToken t)

include ht

/-- A token that is read over a frame and the character at its end is read behind them. -/
theorem infix_of_infix_frame {frame rest : Text} {c : CodePoint} (hframe : CodePoint.ofChar '_' ∉ frame) (hc : c ∉ t)
    (h : t <:+: frame ++ c :: rest) : t <:+: rest :=
  ((infix_append_cons_iff hc).1 h).resolve_left (not_infix_of_isToken ht hframe)

theorem infix_or_of_infix_around {name : String} {content rest : Text} (hname : CodePoint.ofChar '_' ∉ Text.ofString name)
    (h : t <:+: around name content ++ rest) : t <:+: content ∨ t <:+: rest := by
  have hparts : around name content ++ rest = ("<w:" ++ Text.ofString name) ++ CodePoint.ofChar '>' ::
      (content ++ CodePoint.ofChar '<' :: (("/w:" ++ Text.ofString name) ++ CodePoint.ofChar '>' :: rest)) := by
    simp [around, Text.ofString]
  have hopening : CodePoint.ofChar '_' ∉ ("<w:" ++ Text.ofString name : Text) := by
    rw [List.mem_append, not_or]
    exact ⟨by decide, hname⟩
  have hclosing : CodePoint.ofChar '_' ∉ ("/w:" ++ Text.ofString name : Text) := by
    rw [List.mem_append, not_or]
    exact ⟨by decide, hname⟩
  rw [hparts] at h
  have hbehind := infix_of_infix_frame ht hopening (ht.not_mem (by decide)) h
  exact ((infix_append_cons_iff (ht.not_mem (by decide))).1 hbehind).imp_right
    (infix_of_infix_frame ht hclosing (ht.not_mem (by decide)))

theorem infix_or_of_infix_settings {settings : List (String × Text)} {rest : Text}
    (hnames : ∀ s ∈ settings, CodePoint.ofChar '_' ∉ Text.ofString s.1)
    (h : t <:+: (settings.flatMap fun (name, value) => setting name value) ++ rest) :
    (∃ s ∈ settings, t <:+: s.2) ∨ t <:+: rest := by
  induction settings with
  | nil => exact .inr h
  | cons s settings ih =>
    obtain ⟨hname, hnames⟩ := List.forall_mem_cons.1 hnames
    have hparts : (s :: settings).flatMap (fun (name, value) => setting name value) ++ rest =
        (" w:" ++ Text.ofString s.1 ++ ("=" : Text)) ++ CodePoint.ofChar '"' :: (Xml.escapeValue s.2 ++
          CodePoint.ofChar '"' :: ((settings.flatMap fun (name, value) => setting name value) ++ rest)) := by
      simp [setting, Xml.writeValue, Text.ofString]
    have hfront : CodePoint.ofChar '_' ∉ (" w:" ++ Text.ofString s.1 ++ ("=" : Text) : Text) := by
      simp only [List.mem_append, not_or]
      exact ⟨⟨by decide, hname⟩, by decide⟩
    rw [hparts] at h
    have hbehind := infix_of_infix_frame ht hfront (ht.not_mem (by decide)) h
    rcases (infix_append_cons_iff (ht.not_mem (by decide))).1 hbehind with h | h
    · exact .inl ⟨s, List.mem_cons_self, infix_of_infix_escape Xml.isEscape_escapeValuePoint ht h⟩
    · refine (ih hnames h).imp_left ?_
      rintro ⟨s', hs', hin⟩
      exact ⟨s', List.mem_cons_of_mem _ hs', hin⟩

theorem infix_or_of_infix_empty {name : String} {settings : List (String × Text)} {rest : Text}
    (hname : CodePoint.ofChar '_' ∉ Text.ofString name)
    (hnames : ∀ s ∈ settings, CodePoint.ofChar '_' ∉ Text.ofString s.1)
    (h : t <:+: empty name settings ++ rest) : (∃ s ∈ settings, t <:+: s.2) ∨ t <:+: rest := by
  have hparts : empty name settings ++ rest = ("<w:" ++ Text.ofString name) ++
      ((settings.flatMap fun (name, value) => setting name value) ++ (CodePoint.ofChar '/' :: CodePoint.ofChar '>' :: rest)) := by
    simp [empty, Text.ofString]
  have hopening : CodePoint.ofChar '_' ∉ ("<w:" ++ Text.ofString name : Text) := by
    rw [List.mem_append, not_or]
    exact ⟨by decide, hname⟩
  -- behind the name of the element stands a space or a slash
  have hbehind : ∃ c b, (settings.flatMap fun (name, value) => setting name value) ++
      (CodePoint.ofChar '/' :: CodePoint.ofChar '>' :: rest) = c :: b ∧ c ∉ t := by
    cases settings with
    | nil => exact ⟨_, _, rfl, ht.not_mem (by decide)⟩
    | cons s settings => exact ⟨CodePoint.ofChar ' ', _, rfl, ht.not_mem (by decide)⟩
  obtain ⟨c, b, hcons, hc⟩ := hbehind
  rw [hparts, hcons] at h
  have hb := List.infix_cons (a := c) (infix_of_infix_frame ht hopening hc h)
  rw [← hcons] at hb
  exact (infix_or_of_infix_settings ht hnames hb).imp_right
    (infix_of_infix_frame ht (show CodePoint.ofChar '_' ∉ ("/" : Text) by decide) (ht.not_mem (by decide)))

theorem infix_or_of_infix_writePiece {piece rest : Text} (h : t <:+: writePiece piece ++ rest) :
    t <:+: piece ∨ t <:+: rest := by
  unfold writePiece at h
  split at h
  · exact .inr h
  · have hparts : ∃ opening : Text, CodePoint.ofChar '_' ∉ opening ∧
        (if piece.trim = piece then ("<w:t>" : Text) else "<w:t xml:space=\"preserve\">") =
          opening ++ [CodePoint.ofChar '>'] := by
      split
      · exact ⟨"<w:t", by decide, rfl⟩
      · exact ⟨"<w:t xml:space=\"preserve\"", by decide, rfl⟩
    obtain ⟨opening, hopening, heq⟩ := hparts
    have hclosing : (("</w:t>" : Text) ++ rest) = CodePoint.ofChar '<' :: ("/w:t" ++ CodePoint.ofChar '>' :: rest) := rfl
    simp only [heq, List.append_assoc, List.cons_append, List.nil_append, hclosing] at h
    have hbehind := infix_of_infix_frame ht hopening (ht.not_mem (by decide)) h
    rcases (infix_append_cons_iff (ht.not_mem (by decide))).1 hbehind with h | h
    · exact .inl (infix_of_infix_escape Xml.isEscape_escapeTextPoint ht h)
    · exact .inr (infix_of_infix_frame ht (by decide) (ht.not_mem (by decide)) h)

/-- The step of the next lemma: content goes on behind an element. -/
theorem infix_of_infix_break {name : String} {c : CodePoint} {s piece : Text} (hname : CodePoint.ofChar '_' ∉ Text.ofString name)
    (hrest : t <:+: writeContent [] s → t <:+: s) (h : t <:+: writePiece piece ++ empty name [] ++ writeContent [] s) :
    t <:+: piece ++ c :: s := by
  rw [List.append_assoc] at h
  rcases infix_or_of_infix_writePiece ht h with h | h
  · exact h.trans (List.prefix_append piece (c :: s)).isInfix
  · rcases infix_or_of_infix_empty ht hname (fun _ hnone => absurd hnone List.not_mem_nil) h with ⟨_, hnone, -⟩ | h
    · exact absurd hnone List.not_mem_nil
    · exact (hrest h).trans ⟨piece ++ [c], [], by simp⟩

theorem infix_of_infix_writeContent {s piece : Text} (h : t <:+: writeContent piece s) : t <:+: piece ++ s := by
  induction s generalizing piece with
  | nil =>
    rw [writeContent, ← List.append_nil (writePiece piece)] at h
    rw [List.append_nil]
    exact (infix_or_of_infix_writePiece ht h).resolve_right fun hnil => ht.ne_nil (List.infix_nil.1 hnil)
  | cons c s ih =>
    rw [writeContent] at h
    split_ifs at h
    · exact infix_of_infix_break ht (by decide) (fun h => ih h) h
    · exact infix_of_infix_break ht (by decide) (fun h => ih h) h
    · rw [List.append_cons]
      exact ih h

/-- A token that is read in the properties of a run is in the name of its font. -/
theorem infix_or_of_infix_properties {r : Run} {rest : Text} (h : t <:+: r.writeProperties ++ rest) :
    (∃ x ∈ r.font, t <:+: x) ∨ t <:+: rest := by
  have hlook : CodePoint.ofChar '_' ∉ (if r.bold then empty "b" [] else []) ++ (if r.italic then empty "i" [] else []) := by
    cases r.bold <;> cases r.italic <;> decide
  have hwritten : r.writeProperties = [] ∨ r.writeProperties = around "rPr" (_ ++
      (if r.bold then empty "b" [] else []) ++ (if r.italic then empty "i" [] else [])) := ite_eq_or_eq _ _ _
  rcases hwritten with hnone | hsome
  · rw [hnone] at h
    exact .inr h
  · rw [hsome] at h
    refine (infix_or_of_infix_around ht (by decide) h).imp_left fun h => ?_
    rw [List.append_assoc] at h
    cases hfont : r.font with
    | none =>
      rw [hfont] at h
      exact absurd h (not_infix_of_isToken ht hlook)
    | some name =>
      rw [hfont] at h
      have hnames : CodePoint.ofChar '_' ∉ Text.ofString "ascii" ∧ CodePoint.ofChar '_' ∉ Text.ofString "hAnsi" ∧
          CodePoint.ofChar '_' ∉ Text.ofString "eastAsia" := by decide
      rcases infix_or_of_infix_empty ht (by decide) (by simpa using hnames) h with ⟨x, hx, hin⟩ | h
      · refine ⟨name, rfl, ?_⟩
        simp only [List.mem_cons, List.not_mem_nil, or_false] at hx
        rcases hx with rfl | rfl | rfl <;> exact hin
      · exact absurd h (not_infix_of_isToken ht hlook)

/-- A token that is read in a written run is in its text or in the name of its font. -/
theorem infix_of_infix_run {r : Run} (h : t <:+: r.write) : ∃ x ∈ r.texts, t <:+: x := by
  have hinside : t <:+: r.writeProperties ++ (writeContent [] r.content ++ (if r.broken then empty "br" [] else [])) := by
    have hwritten : r.write = empty "r" [] ∨ r.write = around "r"
        (r.writeProperties ++ writeContent [] r.content ++ (if r.broken then empty "br" [] else [])) := ite_eq_or_eq _ _ _
    rcases hwritten with hnone | hsome
    · rw [hnone] at h
      exact absurd h (not_infix_of_isToken ht (by decide))
    · rw [hsome, ← List.append_nil (around _ _), List.append_assoc] at h
      exact (infix_or_of_infix_around ht (by decide) h).resolve_right fun hnil => ht.ne_nil (List.infix_nil.1 hnil)
  rcases infix_or_of_infix_properties ht hinside with ⟨x, hx, hin⟩ | h
  · exact ⟨x, List.mem_cons_of_mem _ (by simpa using hx), hin⟩
  · refine ⟨r.content, List.mem_cons_self, ?_⟩
    have hcontent : t <:+: writeContent [] r.content := by
      cases hbroken : r.broken with
      | false => simpa [hbroken] using h
      | true =>
        rw [hbroken, if_pos rfl, show empty "br" [] = CodePoint.ofChar '<' :: "w:br/>" from rfl,
          infix_append_cons_iff (ht.not_mem (by decide))] at h
        exact h.resolve_right (not_infix_of_isToken ht (by decide))
    exact infix_of_infix_writeContent ht hcontent

end Written

/-! ### Pieces without marks -/

/-- Neither a text of the piece nor its markup holds what tokens begin with. -/
def Piece.Unmarked : Piece → Prop
  | .run r => ∀ x ∈ r.texts, ¬ mark <:+: x
  | .equation item => ¬ mark <:+: sanitizeOmml item.omml

instance (p : Piece) : Decidable p.Unmarked :=
  match p with
  | .run r => inferInstanceAs (Decidable (∀ x ∈ r.texts, _))
  | .equation item => inferInstanceAs (Decidable (¬ mark <:+: sanitizeOmml item.omml))

theorem Piece.Unmarked.holds_no_token {p : Piece} (h : p.Unmarked) {t : Text} (ht : IsToken t) : ¬ t <:+: p.finished := by
  intro hin
  cases p with
  | run r =>
    obtain ⟨x, hx, hin⟩ := infix_of_infix_run ht hin
    exact h x hx (mark_isInfix ht hin)
  | equation item => exact h (mark_isInfix ht (infix_of_infix_markup ht hin))

/-- The document of an outline can be written, and nothing in it looks like a token. -/
structure Presentable (s : Surroundings) (outline : List (Block Inline)) : Prop where
  writable : Writable (textsOf s outline)
  unmarked : ∀ p ∈ contentOfBlocks outline, p.isShown s = true → (p.piece s).Unmarked

instance (s : Surroundings) (outline : List (Block Inline)) : Decidable (Presentable s outline) :=
  decidable_of_iff (Writable (textsOf s outline) ∧ ∀ p ∈ contentOfBlocks outline, p.isShown s = true → (p.piece s).Unmarked)
    ⟨fun h => ⟨h.1, h.2⟩, fun h => ⟨h.writable, h.unmarked⟩⟩

theorem unmarked_blank (s : Surroundings) : (Inline.piece s (.text [] .plain false)).Unmarked := by
  intro x hx
  obtain rfl : x = [] := by simpa [Run.texts, Surroundings.run, Look.plain] using hx
  decide

theorem Presentable.undisturbed {s : Surroundings} {html : Text} {outline : List (Block Inline)}
    (houtline : Document.outline html = .ok outline) (h : Presentable s outline) : Undisturbed (piecesOf s html) := by
  have hunmarked : ∀ p ∈ piecesOf s html, ∀ t, IsToken t → ¬ t <:+: p.finished := by
    intro p hp t ht
    have hmem := List.mem_map_of_mem (f := Piece.untokened) hp
    rw [untokened_piecesOf houtline h.writable] at hmem
    obtain ⟨q, hq, heq⟩ := List.mem_map.1 hmem
    rw [← p.finished_untokened, ← heq]
    rcases mem_content_settledBlocks hq with rfl | ⟨hq, hshown⟩
    · exact (unmarked_blank s).holds_no_token ht
    · exact (h.unmarked q hq hshown).holds_no_token ht
  refine List.pairwise_of_forall_mem_list ?_
  rintro earlier hearlier _ hlater ⟨item, rfl, hin⟩
  refine hunmarked earlier hearlier item.token ?_ hin
  rcases value_create_cases s html with ⟨hnone, -⟩ | ⟨blocks, registry, hpieces, hnumbered, hitems, -⟩
  · rw [hnone] at hlater
    cases hlater
  · refine hnumbered.isToken ?_
    rw [hitems, ← hpieces]
    exact List.mem_filterMap.2 ⟨_, hlater, rfl⟩

/-! ### Two ways to convert -/

section Congr

variable {s₁ s₂ : Surroundings}

theorem fallback_congr (hsettings : s₁.settings = s₂.settings) (node : Node) : s₁.fallback node = s₂.fallback node := by
  rw [Surroundings.fallback, Surroundings.fallback, hsettings]

theorem piece_congr (hsettings : s₁.settings = s₂.settings) {p : Inline}
    (h : ∀ node, p = .equation node → s₁.markup? node = s₂.markup? node) : p.piece s₁ = p.piece s₂ := by
  cases p with
  | text content look broken => rw [Inline.piece, Inline.piece, Surroundings.run, Surroundings.run, hsettings]
  | equation node =>
    rw [Inline.piece, Inline.piece, h node rfl, fallback_congr hsettings, Surroundings.run, Surroundings.run, hsettings]

theorem Paragraph.settled_congr (p : Paragraph Inline) (h : ∀ q ∈ p.content, q.isShown s₁ = q.isShown s₂) :
    p.settled s₁ = p.settled s₂ := by
  rw [Paragraph.settled, Paragraph.settled, List.filter_congr h]

mutual

theorem settledBlock_congr : ∀ block : Block Inline, (∀ q ∈ block.content, q.isShown s₁ = q.isShown s₂) →
    settledBlock s₁ block = settledBlock s₂ block
  | .paragraph p, h => by
    rw [settledBlock, settledBlock, p.settled_congr h]
  | .table rows, h => by
    rw [settledBlock, settledBlock, settledRows_congr rows h]

theorem settledRows_congr : ∀ rows : List (List (List (Block Inline))),
    (∀ q ∈ contentOfRows rows, q.isShown s₁ = q.isShown s₂) → settledRows s₁ rows = settledRows s₂ rows
  | [], _ => rfl
  | row :: rest, h => by
    obtain ⟨hrow, hrest⟩ := List.forall_mem_append.1 h
    rw [settledRows, settledRows, settledCells_congr row hrow, settledRows_congr rest hrest]

theorem settledCells_congr : ∀ cells : List (List (Block Inline)),
    (∀ q ∈ contentOfCells cells, q.isShown s₁ = q.isShown s₂) → settledCells s₁ cells = settledCells s₂ cells
  | [], _ => rfl
  | cell :: rest, h => by
    obtain ⟨hcell, hrest⟩ := List.forall_mem_append.1 h
    rw [settledCells, settledCells, settledBlocks_congr cell hcell, settledCells_congr rest hrest]

/-- What is dropped from an outline depends on what shows. -/
theorem settledBlocks_congr : ∀ blocks : List (Block Inline),
    (∀ q ∈ contentOfBlocks blocks, q.isShown s₁ = q.isShown s₂) → settledBlocks s₁ blocks = settledBlocks s₂ blocks
  | [], _ => rfl
  | block :: rest, h => by
    obtain ⟨hblock, hrest⟩ := List.forall_mem_append.1 h
    rw [settledBlocks, settledBlocks, settledBlock_congr block hblock, settledBlocks_congr rest hrest]

end

end Congr

/-! ### Stretches between the places of a piece -/

theorem intercalate_cons_append {α : Type} (sep a b : List α) (rest : List (List α)) :
    sep.intercalate ((a ++ b) :: rest) = a ++ sep.intercalate (b :: rest) := by
  cases rest <;> simp [List.intercalate, List.intersperse]

open scoped Classical in
/-- Two ways to write that differ in one piece give the same stretches with that piece written in between. -/
theorem exists_stretches {α : Type} {write₁ write₂ : α → Text} {p : α} {segments : List (Segment α)}
    (h : ∀ q ∈ segments.filterMap Segment.piece?, q ≠ p → write₁ q = write₂ q) : ∃ (first : Text) (stretches : List Text),
      stretches.length = (segments.filterMap Segment.piece?).count p ∧
      segments.flatMap (·.write write₁) = (write₁ p).intercalate (first :: stretches) ∧
      segments.flatMap (·.write write₂) = (write₂ p).intercalate (first :: stretches) := by
  induction segments with
  | nil => exact ⟨[], [], rfl, by simp [List.intercalate], by simp [List.intercalate]⟩
  | cons segment segments ih =>
    cases segment with
    | frame f =>
      obtain ⟨first, stretches, hlength, hfirst, hsecond⟩ := ih h
      refine ⟨f ++ first, stretches, hlength, ?_, ?_⟩
      · rw [List.flatMap_cons, hfirst, intercalate_cons_append, Segment.write]
      · rw [List.flatMap_cons, hsecond, intercalate_cons_append, Segment.write]
    | piece q =>
      obtain ⟨hq, hrest⟩ := List.forall_mem_cons.1 h
      obtain ⟨first, stretches, hlength, hfirst, hsecond⟩ := ih hrest
      by_cases heq : q = p
      · subst heq
        refine ⟨[], first :: stretches, ?_, ?_, ?_⟩
        · rw [List.filterMap_cons, Segment.piece?]
          simp [hlength]
        · rw [List.flatMap_cons, hfirst, List.intercalate_cons_cons, List.nil_append, Segment.write]
        · rw [List.flatMap_cons, hsecond, List.intercalate_cons_cons, List.nil_append, Segment.write]
      · refine ⟨write₁ q ++ first, stretches, ?_, ?_, ?_⟩
        · rw [List.filterMap_cons, Segment.piece?]
          simp [hlength, heq]
        · rw [List.flatMap_cons, hfirst, intercalate_cons_append, Segment.write]
        · rw [List.flatMap_cons, hsecond, intercalate_cons_append, Segment.write, hq heq]

/-! ### Documents of two ways to convert -/

open scoped Classical in
theorem count_settledBlocks {s : Surroundings} (outline : List (Block Inline)) {node : Node} (h : s.fallback node ≠ []) :
    (contentOfBlocks (settledBlocks s outline)).count (.equation node) = (contentOfBlocks outline).count (.equation node) := by
  have hkeep : (Inline.text [] .plain false == Inline.equation node) = false := by simp
  have hshown : Inline.isShown s (.equation node) = true := by simp [Inline.isShown, h]
  have hdropped : ∀ l : List Inline, ((l.filter (·.isShown s)).filter (· == .equation node)) = l.filter (· == .equation node) := by
    intro l
    rw [List.filter_filter]
    refine List.filter_congr fun q _ => ?_
    by_cases heq : q = .equation node <;> simp [heq, hshown]
  rw [List.count_eq_countP, List.count_eq_countP, List.countP_eq_length_filter, List.countP_eq_length_filter,
    filter_content_settledBlocks s hkeep, hdropped]

open scoped Classical in
/--
Two ways to convert that agree on all equations of a page but one give two documents that agree everywhere but in the
places of that equation: between the same stretches, each document has the equation as its own way to convert leaves
it, in markup or in source. All other equations keep their markup, although their tokens differ.
-/
theorem create_isolated {s₁ s₂ : Surroundings} {html : Text} {outline : List (Block Inline)} {node : Node}
    (hsettings : s₁.settings = s₂.settings) (houtline : Document.outline html = .ok outline)
    (hsame : ∀ other, .equation other ∈ contentOfBlocks outline → other ≠ node → s₁.markup? other = s₂.markup? other)
    (hfallback : s₁.fallback node ≠ []) (h₁ : Presentable s₁ outline) (h₂ : Presentable s₂ outline) :
    ∃ (first : Text) (stretches : List Text), stretches.length = (contentOfBlocks outline).count (.equation node) ∧
      (create s₁ html).value = .ok ⟨textOf ((Inline.finished s₁ (.equation node)).intercalate (first :: stretches)),
        s₁.settings.mathFont⟩ ∧
      (create s₂ html).value = .ok ⟨textOf ((Inline.finished s₂ (.equation node)).intercalate (first :: stretches)),
        s₂.settings.mathFont⟩ := by
  have hpiece : ∀ q ∈ contentOfBlocks outline, q ≠ .equation node → q.piece s₁ = q.piece s₂ := by
    rintro q hq hne
    refine piece_congr hsettings ?_
    rintro other rfl
    exact hsame other hq fun heq => hne (congrArg _ heq)
  have hshown : ∀ q ∈ contentOfBlocks outline, q.isShown s₁ = q.isShown s₂ := by
    intro q hq
    cases q with
    | text => rfl
    | equation other =>
      by_cases heq : other = node
      · subst heq
        have hempty : (s₁.fallback other).isEmpty = false := by simpa using hfallback
        simp [Inline.isShown, ← fallback_congr hsettings, hempty]
      · rw [Inline.isShown, Inline.isShown, hsame other hq heq, fallback_congr hsettings]
  have hsettled := settledBlocks_congr outline hshown
  obtain ⟨segments, hframed, -, hcontent⟩ := framed_writeBlocks (settledBlocks s₁ outline)
  have hwrite : ∀ piece, writeBlocks piece (settledBlocks s₁ outline) = segments.flatMap (·.write piece) := hframed
  have hfinished : ∀ q ∈ segments.filterMap Segment.piece?, q ≠ .equation node → q.finished s₁ = q.finished s₂ := by
    intro q hq hne
    rw [hcontent] at hq
    rcases mem_content_settledBlocks hq with rfl | ⟨hq, -⟩
    · exact congrArg Piece.finished (piece_congr hsettings fun _ h => Inline.noConfusion h)
    · exact congrArg Piece.finished (hpiece q hq hne)
  obtain ⟨first, stretches, hlength, hfirst, hsecond⟩ := exists_stretches hfinished
  refine ⟨first, stretches, ?_, ?_, ?_⟩
  · rw [hlength, hcontent, count_settledBlocks outline hfallback]
  · rw [create_eq_finished houtline h₁.writable (h₁.undisturbed houtline), hwrite, ← hfirst]
  · rw [create_eq_finished houtline h₂.writable (h₂.undisturbed houtline), ← hsettled, hwrite, ← hsecond]

/-- Of two equations with a text in between, the second way to convert refuses the first, which shows something all the same. -/
def refusesFirst (s₁ s₂ : Surroundings) : List Inline → Bool
  | [.equation a, .text _ _ _, .equation b] => (s₁.markup? a).isSome && (s₂.markup? a).isNone &&
      s₁.markup? b == s₂.markup? b && !(s₁.fallback a).isEmpty
  | _ => false

theorem exists_of_refusesFirst {s₁ s₂ : Surroundings} {pieces : List Inline} (h : refusesFirst s₁ s₂ pieces = true) :
    ∃ a b content look broken, pieces = [.equation a, .text content look broken, .equation b] ∧
      (s₁.markup? a).isSome = true ∧ s₂.markup? a = none ∧ s₁.markup? b = s₂.markup? b ∧ s₁.fallback a ≠ [] := by
  unfold refusesFirst at h
  split at h
  · next a content look broken b =>
    simp only [Bool.and_eq_true, beq_iff_eq, Bool.not_eq_true', List.isEmpty_eq_false_iff, Option.isNone_iff_eq_none] at h
    obtain ⟨⟨⟨hsome, hnone⟩, hsame⟩, hfallback⟩ := h
    exact ⟨a, b, content, look, broken, rfl, hsome, hnone, hsame, hfallback⟩
  · cases h

/-- Of two equations the first is refused by one of two converters: its source takes the place of its markup. -/
theorem create_isolated_refused :
    let settings : Settings := ⟨[], [], 8000, [], "Cambria Math", "Consolas", 5000, []⟩
    let markup : Text := "<m:oMath><m:r><m:t>y</m:t></m:r></m:oMath>"
    let s₁ : Surroundings := ⟨⟨fun _ => some markup, fun _ _ => none⟩, settings⟩
    let s₂ : Surroundings := ⟨⟨fun mathml => if mathml.contains "<mi>a" then none else some markup, fun _ _ => none⟩, settings⟩
    let html : Text :=
      "<p><span class=\"katex\"><math><mi>a</mi></math></span> and <span class=\"katex\"><math><mi>b</mi></math></span></p>"
    ∃ (node : Node) (first last : Text), (s₁.markup? node).isSome ∧ s₂.markup? node = none ∧
      (create s₁ html).value = .ok ⟨textOf (first ++ (Inline.finished s₁ (.equation node) ++ last)), "Cambria Math"⟩ ∧
      (create s₂ html).value = .ok ⟨textOf (first ++ (Inline.finished s₂ (.equation node) ++ last)), "Cambria Math"⟩ := by
  intro settings markup s₁ s₂ html
  have hpage : (outline html).toOption.any (fun outline => decide (Presentable s₁ outline) &&
      decide (Presentable s₂ outline) && refusesFirst s₁ s₂ (contentOfBlocks outline)) = true := by decide +kernel
  obtain ⟨outline, houtline, htest⟩ := exists_ok_of_any hpage
  simp only [Bool.and_eq_true, decide_eq_true_eq] at htest
  obtain ⟨⟨h₁, h₂⟩, hrefuses⟩ := htest
  obtain ⟨a, b, content, look, broken, hcontent, hsome, hnone, hsame, hfallback⟩ := exists_of_refusesFirst hrefuses
  have hne : b ≠ a := by
    rintro rfl
    rw [hsame, hnone] at hsome
    cases hsome
  have hothers : ∀ other, .equation other ∈ contentOfBlocks outline → other ≠ a → s₁.markup? other = s₂.markup? other := by
    intro other hother hother'
    rw [hcontent] at hother
    simp only [List.mem_cons, Inline.equation.injEq, hother', reduceCtorEq, List.not_mem_nil, false_or, or_false] at hother
    rw [hother, hsame]
  obtain ⟨first, stretches, hlength, hfirst, hsecond⟩ :=
    create_isolated (show s₁.settings = s₂.settings from rfl) houtline hothers hfallback h₁ h₂
  simp only [hcontent, List.count_cons, List.count_nil, beq_iff_eq, reduceCtorEq, Inline.equation.injEq, hne,
    if_true, if_false, Nat.zero_add] at hlength
  obtain ⟨last, rfl⟩ := List.length_eq_one_iff.1 hlength
  have hjoin : ∀ x : Text, x.intercalate [first, last] = first ++ (x ++ last) := fun x => by simp [List.intercalate]
  refine ⟨a, first, last, hsome, hnone, ?_, ?_⟩
  · rw [hfirst, hjoin]
  · rw [hsecond, hjoin]

end EquationExport.Document
