import EquationExport.Proofs.Document.Finished
import EquationExport.Proofs.Xml.RoundTrip

/-!
# Paragraphs that are read back

What is written of a paragraph is a tree of markup: its properties and its runs, in which text, tabs and breaks are
elements. So a reader that knows the namespace of documents takes up this very tree, and finds the text of every run in it,
if the texts can be written. A carriage return in a run is written as a break, so it comes back as a line feed.
-/

namespace EquationExport.Document

open EquationExport.Xml.Node (Everywhere everywhere_nil everywhere_append everywhere_cons everywhere_singleton)

/-! ### Markup and trees -/

/-- A name in the namespace of documents. -/
def wordName (name : Text) : Xml.Name := ⟨some "w", some wordNamespace, name⟩

/-- The opening tag of an element in the namespace of documents. -/
def wordTag (name : String) (settings : List (String × Text)) : Xml.Tag :=
  ⟨wordName (Text.ofString name), [], settings.map fun (name, value) => ⟨wordName (Text.ofString name), value⟩⟩

/-- An element in the namespace of documents. -/
def wordNode (name : String) (settings : List (String × Text)) (children : List Xml.Node) : Xml.Node :=
  .element (wordTag name settings) none children []

/-- The settings have names of their own, and values that can be written. -/
def areSettings (settings : List (String × Text)) : Bool :=
  settings.all (fun (name, value) => Xml.isName (Text.ofString name) && Xml.isLegal value) &&
    Xml.distinctBy (fun (setting : String × Text) => Text.ofString setting.1) settings

/-- The scope has the namespace of documents under its usual qualifier. -/
def KnowsWords (scope : Xml.Scope) : Prop := scope.find? (some "w") = some wordNamespace

theorem write_wordTag (name : String) (settings : List (String × Text)) :
    ("<" : Text) ++ (wordTag name settings).write =
      ("<w:" : Text) ++ Text.ofString name ++ settings.flatMap fun (name, value) => setting name value := by
  rw [Xml.Tag.write, wordTag, List.flatMap_nil, List.append_nil, List.flatMap_map]
  rfl

theorem write_wordNode (name : String) (settings : List (String × Text)) (children : List Xml.Node) :
    (wordNode name settings children).write = if children.isEmpty then empty name settings else
      ("<w:" : Text) ++ Text.ofString name ++ (settings.flatMap fun (name, value) => setting name value) ++ (">" : Text) ++
        Xml.writeNodes children ++ ("</w:" : Text) ++ Text.ofString name ++ (">" : Text) := by
  have hclosing : ("</" : Text) ++ (wordTag name settings).name.written = ("</w:" : Text) ++ Text.ofString name := rfl
  rw [wordNode, Xml.Node.write, write_wordTag, Option.isNone_none, Bool.true_and]
  split
  · rfl
  · rw [Option.getD_none, Xml.escapeText, List.flatMap_nil, List.append_nil, List.append_assoc _ ("</" : Text), hclosing,
      List.append_assoc]
    simp only [List.append_assoc]

theorem distinctBy_wordTag (name : String) (settings : List (String × Text)) :
    Xml.distinctBy (fun a : Xml.Attribute => (a.name.space, a.name.localPart)) (wordTag name settings).attributes =
      Xml.distinctBy (fun (setting : String × Text) => Text.ofString setting.1) settings := by
  have hkey : ∀ a b : Text, ((some wordNamespace, a) == (some wordNamespace, b)) = (a == b) := by
    intro a b
    show (some wordNamespace == some wordNamespace && a == b) = _
    rw [beq_self_eq_true, Bool.true_and]
  induction settings with
  | nil => rfl
  | cons setting settings ih =>
    rw [wordTag] at ih ⊢
    rw [List.map_cons, Xml.distinctBy, Xml.distinctBy, ih, List.any_map]
    simp only [wordName, Function.comp_def, hkey]

theorem isKnown_wordTag {scope : Xml.Scope} (hscope : KnowsWords scope) (name : String) {settings : List (String × Text)}
    (hname : Xml.isName (Text.ofString name) = true) (hsettings : areSettings settings = true) :
    (wordTag name settings).IsKnown scope := by
  rw [areSettings, Bool.and_eq_true, List.all_eq_true] at hsettings
  obtain ⟨hall, hdistinct⟩ := hsettings
  have hattribute : ∀ a ∈ (wordTag name settings).attributes, ∃ setting ∈ settings,
      a = ⟨wordName (Text.ofString setting.1), setting.2⟩ := by
    intro a ha
    obtain ⟨setting, hsetting, rfl⟩ := List.mem_map.1 ha
    exact ⟨setting, hsetting, rfl⟩
  refine ⟨⟨hname, ?_, rfl⟩, congrArg (Option.map _) hscope, fun a ha => ?_, fun a ha => ?_, ?_⟩
  · rw [List.all_eq_true]
    intro a ha
    obtain ⟨setting, hsetting, rfl⟩ := hattribute a ha
    exact hall setting hsetting
  · obtain ⟨setting, -, rfl⟩ := hattribute a ha
    exact congrArg (Option.map _) hscope
  · obtain ⟨setting, -, rfl⟩ := hattribute a ha
    rfl
  · rw [distinctBy_wordTag, hdistinct]

/--
Some trees are written as the given text, one after the other, and are read back from it: their names are known, no text
stands beside elements, and they are no deeper than given.
-/
structure Represents (scope : Xml.Scope) (trees : List Xml.Node) (depth : Nat) (written : Text) : Prop where
  written : trees.flatMap (·.write) = written
  known : Everywhere (·.IsKnown scope) trees
  tidy : Everywhere (fun n => n.isTidy = true) trees
  heights : Xml.heights trees ≤ depth

theorem flatMap_write_of_tidy {trees : List Xml.Node} (h : Everywhere (fun n => n.isTidy = true) trees) :
    Xml.writeNodes trees = trees.flatMap (·.write) := by
  induction trees with
  | nil => rfl
  | cons tree trees ih =>
    obtain ⟨htree, htrees⟩ := everywhere_cons.1 h
    have htail : tree.tail = [] := List.isEmpty_iff.1 (Bool.and_eq_true_iff.1 (everywhere_singleton.1 htree).1).1
    rw [Xml.writeNodes, ih htrees, htail, Xml.escapeText, List.flatMap_nil, List.append_nil, List.flatMap_cons]

theorem heights_append (trees more : List Xml.Node) :
    Xml.heights (trees ++ more) = max (Xml.heights trees) (Xml.heights more) := by
  induction trees with
  | nil => exact (Nat.zero_max _).symm
  | cons tree trees ih => rw [List.cons_append, Xml.heights, Xml.heights, ih, Nat.max_assoc]

namespace Represents

variable {scope : Xml.Scope} {trees more : List Xml.Node} {depth : Nat} {written rest : Text}

theorem nil : Represents scope [] depth [] := ⟨rfl, everywhere_nil, everywhere_nil, Nat.zero_le _⟩

theorem append (h : Represents scope trees depth written) (hmore : Represents scope more depth rest) :
    Represents scope (trees ++ more) depth (written ++ rest) := by
  refine ⟨?_, everywhere_append.2 ⟨h.known, hmore.known⟩, everywhere_append.2 ⟨h.tidy, hmore.tidy⟩, ?_⟩
  · rw [List.flatMap_append, h.written, hmore.written]
  · rw [heights_append]
    exact Nat.max_le.2 ⟨h.heights, hmore.heights⟩

theorem mono (h : Represents scope trees depth written) {more : Nat} (hle : depth ≤ more) :
    Represents scope trees more written := ⟨h.written, h.known, h.tidy, h.heights.trans hle⟩

theorem eq_nil_iff (h : Represents scope trees depth written) : trees = [] ↔ written = [] := by
  rw [← h.written]
  cases trees with
  | nil => exact iff_of_true rfl rfl
  | cons tree trees =>
    obtain ⟨hknown, -⟩ := everywhere_singleton.1 (everywhere_cons.1 h.known).1
    refine iff_of_false (List.cons_ne_nil _ _) fun hnil => ?_
    have hwritten : tree.write = [] := (List.append_eq_nil_iff.1 hnil).1
    cases tree with
    | comment => exact hknown
    | instruction => exact hknown
    | element =>
      rw [Xml.Node.write] at hwritten
      split at hwritten <;> cases hwritten

theorem node (hscope : KnowsWords scope) (name : String) (hname : Xml.isName (Text.ofString name) = true)
    {settings : List (String × Text)} (hsettings : areSettings settings = true) (h : Represents scope trees depth written) :
    Represents scope [wordNode name settings trees] (depth + 1) (wordNode name settings trees).write := by
  refine ⟨List.flatMap_singleton _ _, everywhere_singleton.2 ⟨?_, h.known⟩, everywhere_singleton.2 ⟨?_, h.tidy⟩, ?_⟩
  · exact ⟨isKnown_wordTag hscope name hname hsettings, rfl, rfl⟩
  · exact Bool.or_true _
  · show max (Xml.heights trees + 1) 0 ≤ depth + 1
    rw [Nat.max_zero]
    exact Nat.succ_le_succ h.heights

/-- An element without content. -/
theorem empty (hscope : KnowsWords scope) (name : String) (hname : Xml.isName (Text.ofString name) = true)
    {settings : List (String × Text)} (hsettings : areSettings settings = true) :
    Represents scope [wordNode name settings []] 1 (Document.empty name settings) := by
  have hnode : Represents scope [wordNode name settings []] (0 + 1) _ := node hscope name hname hsettings .nil
  rwa [write_wordNode] at hnode

/-- An element around some content. -/
theorem around (hscope : KnowsWords scope) (name : String) (hname : Xml.isName (Text.ofString name) = true)
    (h : Represents scope trees depth written) (hne : trees ≠ []) :
    Represents scope [wordNode name [] trees] (depth + 1) (Document.around name written) := by
  have hnode : Represents scope [wordNode name [] trees] (depth + 1) _ := node hscope name hname rfl h
  rw [write_wordNode, if_neg (by simpa using hne), flatMap_write_of_tidy h.tidy, h.written, List.flatMap_nil,
    List.append_nil] at hnode
  exact hnode

/-- An element around some content, if there is any. -/
theorem aroundAny (hscope : KnowsWords scope) (name : String) (hname : Xml.isName (Text.ofString name) = true)
    (h : Represents scope trees depth written) : Represents scope (if trees.isEmpty then [] else [wordNode name [] trees])
      (depth + 1) (if written.isEmpty then [] else Document.around name written) := by
  by_cases hnone : trees = []
  · rw [if_pos (List.isEmpty_iff.2 hnone), if_pos (List.isEmpty_iff.2 (h.eq_nil_iff.1 hnone))]
    exact nil
  · rw [if_neg (mt List.isEmpty_iff.1 hnone), if_neg (mt List.isEmpty_iff.1 (mt h.eq_nil_iff.2 hnone))]
    exact h.around hscope name hname hnone

end Represents

/-! ### Runs -/

/-- A piece of text without tabs and line feeds as trees. -/
def pieceTrees (piece : Text) : List Xml.Node :=
  if piece.isEmpty then []
  else [.element ⟨wordName "t", [], if piece.trim = piece then [] else [⟨Xml.spaceAttribute, "preserve"⟩]⟩ (some piece) [] []]

/-- Text as the content of a run; `piece` is what has been read since the last tab or line end. -/
def contentTrees (piece : Text) : Text → List Xml.Node
  | [] => pieceTrees piece
  | c :: s =>
    if c = '\t' then pieceTrees piece ++ [wordNode "tab" [] []] ++ contentTrees [] s
    else if c = '\n' ∨ c = '\r' then pieceTrees piece ++ [wordNode "br" [] []] ++ contentTrees [] s
    else contentTrees (piece ++ [c]) s

/-- The properties of a run, one by one. -/
def Run.properties (r : Run) : List Xml.Node :=
  (match r.font with
    | some name => [wordNode "rFonts" [("ascii", name), ("hAnsi", name), ("eastAsia", name)] []]
    | none => []) ++
    (if r.bold then [wordNode "b" [] []] else []) ++ (if r.italic then [wordNode "i" [] []] else [])

/-- The properties of a run as trees. -/
def Run.propertyTrees (r : Run) : List Xml.Node := if r.properties.isEmpty then [] else [wordNode "rPr" [] r.properties]

/-- A run as a tree. -/
def Run.tree (r : Run) : Xml.Node :=
  wordNode "r" [] (r.propertyTrees ++ contentTrees [] r.content ++ (if r.broken then [wordNode "br" [] []] else []))

section Runs

variable {scope : Xml.Scope} (hscope : KnowsWords scope)

include hscope

theorem represents_piece {piece : Text} (h : Xml.isLegal piece = true) :
    Represents scope (pieceTrees piece) 1 (writePiece piece) := by
  rw [pieceTrees, writePiece]
  split
  · exact .nil
  · refine ⟨?_, everywhere_singleton.2 ⟨⟨?_, h, rfl⟩, everywhere_nil⟩, everywhere_singleton.2 ⟨rfl, everywhere_nil⟩, le_rfl⟩
    · have hopening : ("<" : Text) ++ (⟨wordName "t", [], []⟩ : Xml.Tag).write ++ (">" : Text) = "<w:t>" ∧
          ("<" : Text) ++ (⟨wordName "t", [], [⟨Xml.spaceAttribute, "preserve"⟩]⟩ : Xml.Tag).write ++ (">" : Text) =
            "<w:t xml:space=\"preserve\">" := by decide +kernel
      have hclosing : ∀ attributes, ("</" : Text) ++ ((⟨wordName "t", [], attributes⟩ : Xml.Tag).name.written ++ (">" : Text)) =
          "</w:t>" := fun _ => rfl
      have hfull : ¬ ((some piece).isNone && ([] : List Xml.Node).isEmpty) = true := Bool.false_ne_true
      rw [List.flatMap_singleton, Xml.Node.write, Xml.writeNodes, List.append_nil, if_neg hfull, List.append_assoc,
        List.append_assoc, hclosing, Option.getD_some]
      by_cases htrim : piece.trim = piece
      · simp only [if_pos htrim, hopening.1]
      · simp only [if_neg htrim, hopening.2]
    · by_cases htrim : piece.trim = piece
      · simp only [if_pos htrim]
        exact isKnown_wordTag hscope "t" (by decide) (show areSettings [] = true from rfl)
      · simp only [if_neg htrim]
        refine ⟨⟨by decide, by decide, rfl⟩, congrArg (Option.map _) hscope, ?_, ?_, rfl⟩
        · exact List.forall_mem_singleton.2 rfl
        · exact List.forall_mem_singleton.2 rfl

theorem represents_content {piece s : Text} (hpiece : Xml.isLegal piece = true) (h : Xml.isLegal s = true) :
    Represents scope (contentTrees piece s) 1 (writeContent piece s) := by
  induction s generalizing piece with
  | nil => exact represents_piece hscope hpiece
  | cons c s ih =>
    have hlegal : Xml.isLegal [c] = true ∧ Xml.isLegal s = true := Xml.isLegal_append.1 h
    rw [contentTrees, writeContent]
    split_ifs
    · exact ((represents_piece hscope hpiece).append (.empty hscope "tab" (by decide) rfl)).append (ih rfl hlegal.2)
    · exact ((represents_piece hscope hpiece).append (.empty hscope "br" (by decide) rfl)).append (ih rfl hlegal.2)
    · exact ih (Xml.isLegal_append.2 ⟨hpiece, hlegal.1⟩) hlegal.2

theorem represents_properties {r : Run} (h : ∀ name ∈ r.font, Xml.isLegal name = true) :
    Represents scope r.propertyTrees 2 r.writeProperties := by
  have hfont : Represents scope
      (match r.font with
        | some name => [wordNode "rFonts" [("ascii", name), ("hAnsi", name), ("eastAsia", name)] []]
        | none => []) 1
      (match r.font with
        | some name => empty "rFonts" [("ascii", name), ("hAnsi", name), ("eastAsia", name)]
        | none => []) := by
    cases hname : r.font with
    | none => exact .nil
    | some name =>
      refine .empty hscope "rFonts" (by decide) ?_
      have hnames : areSettings [("ascii", []), ("hAnsi", []), ("eastAsia", [])] = true := by decide
      have hlegal : Xml.isLegal [] = true := rfl
      simpa [areSettings, h name hname, hlegal, Xml.distinctBy] using hnames
  have hflag : ∀ (flag : Bool) (name : String), Xml.isName (Text.ofString name) = true →
      Represents scope (if flag then [wordNode name [] []] else []) 1 (if flag then empty name [] else []) := by
    intro flag name hname
    cases flag
    · exact .nil
    · exact .empty hscope name hname rfl
  have hall : Represents scope r.properties 1 _ :=
    (hfont.append (hflag r.bold "b" (by decide))).append (hflag r.italic "i" (by decide))
  exact hall.aroundAny hscope "rPr" (by decide)

theorem represents_run {r : Run} (h : Writable r.texts) : Represents scope [r.tree] 3 r.write := by
  obtain ⟨hcontent, hfont⟩ := List.forall_mem_cons.1 h
  have hproperties := represents_properties hscope fun name hname => hfont name (Option.mem_toList.2 hname)
  have hbreak : Represents scope (if r.broken then [wordNode "br" [] []] else []) 1 (if r.broken then empty "br" [] else []) := by
    split
    · exact .empty hscope "br" (by decide) rfl
    · exact .nil
  have hinside : Represents scope (contentTrees [] r.content) 1 (writeContent [] r.content) := represents_content hscope rfl hcontent
  have hall := (hproperties.append (hinside.mono (by decide))).append (hbreak.mono (by decide))
  rw [Run.tree, Run.write]
  by_cases hnone : r.propertyTrees ++ contentTrees [] r.content ++ (if r.broken then [wordNode "br" [] []] else []) = []
  · rw [if_pos (List.isEmpty_iff.2 (hall.eq_nil_iff.1 hnone)), hnone]
    exact (Represents.empty hscope "r" (by decide) rfl).mono (by decide)
  · rw [if_neg (mt List.isEmpty_iff.1 (mt hall.eq_nil_iff.2 hnone))]
    exact hall.around hscope "r" (by decide) hnone

end Runs

/-! ### Paragraphs -/

/-- A border on one side as a tree. -/
def borderTree (size color : Text) (side : String) : Xml.Node :=
  wordNode side [("val", "single"), ("sz", size), ("space", "0"), ("color", color)] []

/-- The box around code as trees. -/
def codeBoxTrees : List Xml.Node :=
  [wordNode "pBdr" [] (["top", "left", "bottom", "right"].map (borderTree "6" "1E293B")),
    wordNode "shd" [("val", "clear"), ("color", "auto"), ("fill", "F1F5F9")] []]

/-- The space around a paragraph, its indent and its alignment as trees. -/
def ParagraphKind.layoutTrees : ParagraphKind → List Xml.Node
  | .code => [wordNode "spacing" [("after", "160"), ("before", "80")] [], wordNode "ind" [("left", "180"), ("right", "180")] []]
  | .quotation => [wordNode "spacing" [("after", "160")] [], wordNode "ind" [("left", "360")] []]
  | .display => [wordNode "spacing" [("after", "160")] [], wordNode "jc" [("val", "center")] []]
  | _ => [wordNode "spacing" [("after", "160")] []]

/-- The properties of a paragraph as a tree. -/
def ParagraphKind.tree (kind : ParagraphKind) : Xml.Node :=
  wordNode "pPr" [] ((match kind.style? with
    | some name => [wordNode "pStyle" [("val", name)] []]
    | none => []) ++ (if kind = .code then codeBoxTrees else []) ++ kind.layoutTrees)

/-- The run that a piece is written as before equations are put in the place of their tokens. -/
def Piece.pendingRun : Piece → Run
  | .run r => r
  | .equation item => .placeholder item.token

/-- A paragraph as a tree. -/
def Paragraph.tree (p : Paragraph Piece) : Xml.Node := wordNode "p" [] (p.kind.tree :: p.content.map (·.pendingRun.tree))

theorem isLegal_ofNat (n : Nat) : Xml.isLegal (Text.ofNat n) = true := by
  rw [Xml.isLegal_iff]
  intro c hc
  obtain ⟨d, hd, rfl⟩ := List.mem_map.1 hc
  have hdigit := Nat.isDigit_of_mem_toDigits (by decide) (by decide) hd
  simp only [Char.isDigit, Bool.and_eq_true, decide_eq_true_eq] at hdigit
  have hlow : 48 ≤ d.toNat := UInt32.le_iff_toNat_le.1 hdigit.1
  have hhigh : d.toNat ≤ 57 := UInt32.le_iff_toNat_le.1 hdigit.2
  have hrange : 0x20 ≤ d.toNat ∧ d.toNat ≤ 0xD7FF := by omega
  simp [CodePoint.isXml, CodePoint.inRange, CodePoint.ofChar, hrange]

theorem ParagraphKind.isLegal_style {kind : ParagraphKind} {name : Text} (h : kind.style? = some name) :
    Xml.isLegal name = true := by
  cases kind with
  | heading level =>
    obtain rfl := Option.some.inj h
    exact Xml.isLegal_append.2 ⟨by decide, isLegal_ofNat level⟩
  | item ordered depth =>
    obtain rfl := Option.some.inj h
    have hlist : Xml.isLegal (if ordered then ("ListNumber" : Text) else "ListBullet") = true := by cases ordered <;> decide
    split
    · exact hlist
    · exact Xml.isLegal_append.2 ⟨hlist, isLegal_ofNat _⟩
  | _ => cases h

section Paragraphs

variable {scope : Xml.Scope} (hscope : KnowsWords scope)

include hscope

theorem represents_codeBox : Represents scope codeBoxTrees 2 codeBox := by
  have hborder : ∀ side ∈ ["top", "left", "bottom", "right"],
      Represents scope [borderTree "6" "1E293B" side] 1 (border "6" "1E293B" side) := by
    intro side hside
    have hname : ∀ side ∈ ["top", "left", "bottom", "right"], Xml.isName (Text.ofString side) = true := by decide
    exact .empty hscope side (hname side hside) (by decide +kernel)
  have hborders : ∀ sides ⊆ ["top", "left", "bottom", "right"],
      Represents scope (sides.map (borderTree "6" "1E293B")) 1 (sides.flatMap (border "6" "1E293B")) := by
    intro sides
    induction sides with
    | nil => exact fun _ => .nil
    | cons side sides ih =>
      intro hsides
      exact (hborder side (hsides List.mem_cons_self)).append (ih fun _ hmem => hsides (List.mem_cons_of_mem _ hmem))
  have hbox := (hborders _ (List.Subset.refl _)).around hscope "pBdr" (by decide) (by simp)
  exact hbox.append ((Represents.empty hscope "shd" (by decide) (by decide +kernel)).mono (by decide))

theorem represents_layout (kind : ParagraphKind) : Represents scope kind.layoutTrees 1 kind.layout := by
  have hspacing : Represents scope [wordNode "spacing" [("after", "160")] []] 1 (empty "spacing" [("after", "160")]) :=
    .empty hscope "spacing" (by decide) (by decide +kernel)
  cases kind with
  | code =>
    exact (Represents.empty hscope "spacing" (by decide) (by decide +kernel)).append
      (.empty hscope "ind" (by decide) (by decide +kernel))
  | quotation => exact hspacing.append (.empty hscope "ind" (by decide) (by decide +kernel))
  | display => exact hspacing.append (.empty hscope "jc" (by decide) (by decide +kernel))
  | body => exact hspacing
  | heading => exact hspacing
  | item => exact hspacing

theorem represents_kind (kind : ParagraphKind) : Represents scope [kind.tree] 3 kind.write := by
  have hstyle : Represents scope
      (match kind.style? with
        | some name => [wordNode "pStyle" [("val", name)] []]
        | none => []) 1
      (match kind.style? with
        | some name => empty "pStyle" [("val", name)]
        | none => []) := by
    cases hname : kind.style? with
    | none => exact .nil
    | some name =>
      refine .empty hscope "pStyle" (by decide) ?_
      have hval : Xml.isName (Text.ofString "val") = true := by decide
      simp [areSettings, Xml.distinctBy, hval, kind.isLegal_style hname]
  have hbox : Represents scope (if kind = .code then codeBoxTrees else []) 2 (if kind = .code then codeBox else []) := by
    split
    · exact represents_codeBox hscope
    · exact .nil
  have hall := ((hstyle.mono (by decide)).append hbox).append ((represents_layout hscope kind).mono (by decide))
  have hlayout : kind.layoutTrees ≠ [] := by cases kind <;> exact List.cons_ne_nil _ _
  exact hall.around hscope "pPr" (by decide) (List.append_ne_nil_of_right_ne_nil _ hlayout)

theorem represents_paragraph {p : Paragraph Piece} (h : Writable (p.content.flatMap (·.pendingRun.texts))) :
    Represents scope [p.tree] 4 (p.write Piece.pending) := by
  have hpending : ∀ piece : Piece, piece.pending = piece.pendingRun.write := fun piece => by cases piece <;> rfl
  have hruns : ∀ content : List Piece, Writable (content.flatMap (·.pendingRun.texts)) →
      Represents scope (content.map (·.pendingRun.tree)) 3 (content.flatMap Piece.pending) := by
    intro content
    induction content with
    | nil => exact fun _ => .nil
    | cons piece content ih =>
      intro hcontent
      obtain ⟨hpiece, hcontent⟩ := writable_append_iff.1 hcontent
      rw [List.flatMap_cons, hpending]
      exact (represents_run hscope hpiece).append (ih hcontent)
  exact ((represents_kind hscope p.kind).append (hruns p.content h)).around hscope "p" (by decide) (List.cons_ne_nil _ _)

end Paragraphs

/-! ### The text that is read -/

/-- An element of the given name in the namespace of documents. -/
def isWordNamed (name : String) (node : Xml.Node) : Bool := node.name?.any (·.same (wordName (Text.ofString name)))

/-- The text of a part of a run: text as it is, and a tab or a line feed for what stands for them. -/
def partText (node : Xml.Node) : Text :=
  if isWordNamed "t" node then node.text?.getD []
  else if isWordNamed "tab" node then ['\t']
  else if isWordNamed "br" node then ['\n']
  else []

/-- The text of a run. -/
def runText (node : Xml.Node) : Text := if isWordNamed "r" node then node.children.flatMap partText else []

/-- The text of a paragraph: that of its runs, one after the other. -/
def paragraphText (node : Xml.Node) : Text := node.children.flatMap runText

theorem isWordNamed_reread (name : String) (node : Xml.Node) : isWordNamed name node.reread = isWordNamed name node := by
  cases node <;> rfl

theorem partText_reread (node : Xml.Node) : partText node.reread = partText node := by
  have htext : node.reread.text?.getD [] = node.text?.getD [] := by
    cases node with
    | element tag text children tail =>
      cases text with
      | none => rfl
      | some text => cases text <;> rfl
    | comment => rfl
    | instruction => rfl
  simp only [partText, isWordNamed_reread, htext]

theorem children_reread (node : Xml.Node) : node.reread.children = node.children.map (·.reread) := by
  cases node with
  | element tag text children tail => exact Xml.rereads_eq_map children
  | comment => rfl
  | instruction => rfl

theorem paragraphText_reread (node : Xml.Node) : paragraphText node.reread = paragraphText node := by
  have hrun : ∀ node : Xml.Node, runText node.reread = runText node := by
    intro node
    simp only [runText, isWordNamed_reread, children_reread, List.flatMap_map, partText_reread]
  simp only [paragraphText, children_reread, List.flatMap_map, hrun]

/-- The text that a run is read back as: breaks are line feeds. -/
def Run.text (r : Run) : Text := r.content.replacePoint '\r' '\n' ++ (if r.broken then ("\n" : Text) else [])

theorem flatMap_partText_content (piece s : Text) :
    (contentTrees piece s).flatMap partText = piece ++ s.replacePoint '\r' '\n' := by
  have hpiece : ∀ piece : Text, (pieceTrees piece).flatMap partText = piece := by
    intro piece
    cases piece with
    | nil => rfl
    | cons c piece => exact List.append_nil (c :: piece)
  induction s generalizing piece with
  | nil => exact (hpiece piece).trans (List.append_nil piece).symm
  | cons c s ih =>
    have hcons : Text.replacePoint (c :: s) '\r' '\n' =
        (if c = '\r' then ('\n' : CodePoint) else c) :: Text.replacePoint s '\r' '\n' := rfl
    rw [contentTrees, hcons]
    by_cases htab : c = '\t'
    · subst htab
      rw [if_pos rfl, List.flatMap_append, List.flatMap_append, hpiece, ih, List.append_assoc]
      rfl
    by_cases hbreak : c = '\n' ∨ c = '\r'
    · have hfeed : (if c = '\r' then ('\n' : CodePoint) else c) = '\n' := by rcases hbreak with rfl | rfl <;> rfl
      rw [if_neg htab, if_pos hbreak, List.flatMap_append, List.flatMap_append, hpiece, ih, hfeed, List.append_assoc]
      rfl
    · rw [if_neg htab, if_neg hbreak, ih, if_neg (not_or.1 hbreak).2, List.append_assoc]
      rfl

theorem runText_tree (r : Run) : runText r.tree = r.text := by
  have hproperties : r.propertyTrees.flatMap partText = [] := by
    rw [Run.propertyTrees]
    split <;> rfl
  have hbreak : (if r.broken then [wordNode "br" [] []] else []).flatMap partText =
      if r.broken then ("\n" : Text) else [] := by
    split <;> rfl
  have hself : runText r.tree = (r.propertyTrees ++ contentTrees [] r.content ++
      (if r.broken then [wordNode "br" [] []] else [])).flatMap partText := rfl
  rw [hself, List.flatMap_append, List.flatMap_append, hproperties, flatMap_partText_content, hbreak]
  rfl

theorem paragraphText_tree (p : Paragraph Piece) : paragraphText p.tree = p.content.flatMap (·.pendingRun.text) := by
  have hself : paragraphText p.tree = runText p.kind.tree ++ (p.content.map (·.pendingRun.tree)).flatMap runText := rfl
  have hkind : runText p.kind.tree = [] := rfl
  simp only [hself, hkind, List.nil_append, List.flatMap_map, runText_tree]

/-- A paragraph whose texts can be written is read back as one tree, with the text of its runs. -/
theorem readContent_paragraph {scope : Xml.Scope} (hscope : KnowsWords scope) (root : Xml.Tag) {p : Paragraph Piece}
    (h : Writable (p.content.flatMap (·.pendingRun.texts))) :
    Xml.readContent? root scope (p.write Piece.pending) = some (none, [p.tree.reread]) ∧
      paragraphText p.tree.reread = p.content.flatMap (·.pendingRun.text) := by
  have hparagraph := represents_paragraph hscope h
  have hdepth : Xml.heights [p.tree] < Xml.maxDepth := Nat.lt_of_le_of_lt hparagraph.heights (by decide)
  obtain ⟨text, read, hread, -, htidy⟩ := Xml.exists_readContent scope root [p.tree] hparagraph.known hdepth
  obtain ⟨rfl, rfl⟩ := htidy hparagraph.tidy
  rw [hparagraph.written] at hread
  exact ⟨hread, (paragraphText_reread _).trans (paragraphText_tree p)⟩

end EquationExport.Document
