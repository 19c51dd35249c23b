import EquationExport.Proofs.Document.Header
import EquationExport.Proofs.Text.Canonical
import Mathlib.Data.List.Chain

/-!
# White space in a paragraph

White space is collapsed text by text. So in a paragraph without equations and line breaks two spaces are neighbours exactly
where one text of the page ends with white space and the next one begins with it; elements that begin or end between the two
make no difference, nor do texts in which nothing is left.
-/

namespace EquationExport

namespace Text

variable {s : Text}

/-- Of two code points one at least is no white space. -/
def Apart (c d : CodePoint) : Prop := c.isSpace = false ∨ d.isSpace = false

instance : DecidableRel Apart := fun c d => inferInstanceAs (Decidable (c.isSpace = false ∨ d.isSpace = false))

/-- The first text ends with white space and the second begins with it. -/
def MeetInSpace (s t : Text) : Prop := s.getLast?.any (·.isSpace) = true ∧ t.head?.any (·.isSpace) = true

instance : DecidableRel MeetInSpace := fun s t =>
  inferInstanceAs (Decidable (s.getLast?.any (·.isSpace) = true ∧ t.head?.any (·.isSpace) = true))

/-- In a canonical text no two spaces are neighbours. -/
theorem Canonical.isChain (h : Canonical s) : s.IsChain Apart := by
  rw [List.isChain_iff_forall_rel_of_append_cons_cons]
  rintro c d front back rfl
  rw [Apart, ← Bool.not_eq_true, ← Bool.not_eq_true, ← not_and_or]
  rintro ⟨hc, hd⟩
  obtain rfl := h.space c (by simp) hc
  obtain rfl := h.space d (by simp) hd
  exact h.single ⟨front, back, by simp⟩

/-- Joined, canonical texts have neighbouring spaces where they meet in white space, and nowhere else. -/
theorem isChain_flatten_iff {texts : List Text} (hnil : [] ∉ texts) (h : ∀ t ∈ texts, Canonical t) :
    texts.flatten.IsChain Apart ↔ texts.IsChain fun s t => ¬ MeetInSpace s t := by
  have hseam : ∀ s t : Text, (∀ᵉ (c ∈ s.getLast?) (d ∈ t.head?), Apart c d) ↔ ¬ MeetInSpace s t := by
    intro s t
    rw [MeetInSpace]
    cases s.getLast? <;> cases t.head? <;> simp [Apart, or_iff_not_imp_left]
  rw [List.isChain_flatten hnil, and_iff_right fun t ht => (h t ht).isChain]
  simp only [hseam]

end Text

namespace Document

open EquationExport.Html (Node)

/-! ### Running text -/

/-- The text that a text node becomes, if anything is left of it. -/
def runningText? : Node → Option Text
  | .text _ content => if content.normalize.isEmpty then none else some content.normalize
  | _ => none

/-- The texts that inline nodes become, in the order of the page. -/
def runningTexts (nodes : List Node) : List Text := (readInlines nodes).filterMap runningText?

theorem canonical_of_mem_runningTexts {nodes : List Node} {t : Text} (h : t ∈ runningTexts nodes) : t ≠ [] ∧ t.Canonical := by
  obtain ⟨node, -, htext⟩ := List.mem_filterMap.1 h
  cases node with
  | element => cases htext
  | markup => cases htext
  | text kind content =>
    rw [runningText?] at htext
    split at htext
    · cases htext
    · next hnone =>
      obtain rfl := Option.some.inj htext
      exact ⟨mt List.isEmpty_iff.2 hnone, Text.canonical_normalize content⟩

/-- The node is neither an equation nor a line break. -/
def IsFlat (node : Node) : Prop := node.isEquation = false ∧ node.isNamed "br" = false

instance (node : Node) : Decidable (IsFlat node) := inferInstanceAs (Decidable (_ = false ∧ _ = false))

/-- The pieces become runs of the given texts, without line breaks. -/
def BecomeTexts (s : Surroundings) (content : List Inline) (texts : List Text) : Prop :=
  ∃ runs : List Run, content.flatMap (·.pieces s) = runs.map .run ∧ runs.map (·.content) = texts ∧ ∀ r ∈ runs, r.broken = false

namespace BecomeTexts

variable {s : Surroundings} {content more : List Inline} {texts later : List Text}

theorem nil : BecomeTexts s [] [] := ⟨[], rfl, rfl, List.forall_mem_nil _⟩

theorem single (text : Text) (look : Look) : BecomeTexts s [.text text look false] [text] :=
  ⟨[s.run text look false], rfl, rfl, List.forall_mem_singleton.2 rfl⟩

theorem append (h : BecomeTexts s content texts) (hmore : BecomeTexts s more later) :
    BecomeTexts s (content ++ more) (texts ++ later) := by
  obtain ⟨runs, hpieces, rfl, hunbroken⟩ := h
  obtain ⟨runs', hpieces', rfl, hunbroken'⟩ := hmore
  refine ⟨runs ++ runs', ?_, List.map_append, List.forall_mem_append.2 ⟨hunbroken, hunbroken'⟩⟩
  rw [List.flatMap_append, hpieces, hpieces', List.map_append]

end BecomeTexts

section Flat

variable (s : Surroundings)

mutual

theorem becomeTexts_inline (look : Look) : ∀ node, Within IsFlat [node] →
    BecomeTexts s (inlines look node) ((readInline node).filterMap runningText?)
  | .text kind content, _ => by
    rw [inlines, readInline, List.filterMap_cons, runningText?]
    split
    · exact .nil
    · exact .single _ _
  | .markup .., _ => .nil
  | .element name attributes children, h => by
    have hequation : ¬ (Node.element name attributes children).isEquation = true := Bool.eq_false_iff.1 h.self.1
    have hbreak : name ≠ "br" := fun hname => Bool.eq_false_iff.1 h.self.2 (isNamed_element.2 hname)
    rw [inlines, readInline, if_neg hequation, if_neg hequation, if_neg hbreak, if_neg hbreak]
    split
    · exact .nil
    · exact becomeTexts_inlines (look.inside name) children h.children

/-- Nodes without equations and line breaks become runs of their texts. -/
theorem becomeTexts_inlines (look : Look) : ∀ nodes, Within IsFlat nodes →
    BecomeTexts s (inlinesOf look nodes) (runningTexts nodes)
  | [], _ => .nil
  | node :: rest, h => by
    obtain ⟨hnode, hrest⟩ := within_cons.1 h
    rw [inlinesOf, runningTexts, readInlines, List.filterMap_append]
    exact (becomeTexts_inline look node hnode).append (becomeTexts_inlines look rest hrest)

end

end Flat

/-! ### Paragraphs -/

/--
Inline nodes without equations and line breaks. Each of their texts is collapsed by itself: where anything is left of it, it
becomes a run, in which no two spaces are neighbours. Unless a text cannot be written, a paragraph of the nodes consists of these
runs in the order of the page, and two spaces are neighbours in it exactly if one of the texts ends with a
space and the next one begins with a space.
-/
theorem paragraph_spacing (s : Surroundings) (look : Look) {nodes : List Node} (h : ∀ node ∈ Node.subtrees nodes, IsFlat node) :
    (∀ t ∈ runningTexts nodes, t ≠ [] ∧ t.Canonical ∧ t.IsChain Text.Apart) ∧
      Yields (composeInlines s (inlinesOf look nodes)) ((inlinesOf look nodes).flatMap (·.texts s))
        ((inlinesOf look nodes).flatMap (·.calls s)) fun pieces => ∃ runs : List Run, pieces = runs.map .run ∧
          runs.map (·.content) = runningTexts nodes ∧ (∀ r ∈ runs, r.broken = false) ∧
          ((runs.flatMap (·.content)).IsChain Text.Apart ↔ (runningTexts nodes).IsChain fun a b => ¬ Text.MeetInSpace a b) := by
  have htexts : ∀ t ∈ runningTexts nodes, t ≠ [] ∧ t.Canonical := fun _ => canonical_of_mem_runningTexts
  refine ⟨fun t ht => ⟨(htexts t ht).1, (htexts t ht).2, (htexts t ht).2.isChain⟩, ?_⟩
  refine (yields_composeInlines s (inlinesOf look nodes)).mono fun pieces hpieces => ?_
  obtain ⟨runs, hruns, hcontents, hunbroken⟩ := becomeTexts_inlines s look nodes h
  refine ⟨runs, eq_map_run_of_untokened (hpieces.trans hruns), hcontents, hunbroken, ?_⟩
  rw [← Text.isChain_flatten_iff (fun hnil => (htexts _ hnil).1 rfl) fun t ht => (htexts t ht).2, ← hcontents,
    List.flatMap_def]

/-- Texts with white space inside and between them, one of them within code and one with nothing but white space. -/
theorem paragraph_spacing_marked :
    let s : Surroundings := ⟨⟨fun _ => none, fun _ _ => none⟩, ⟨[], [], 8000, [], "Cambria Math", "Consolas", 5000, []⟩⟩
    let nodes : List Node := [.text .plain "a \n b", .element "i" [] [.text .plain "  "],
      .element "b" [] [.text .plain "c\t", .element "code" [] [.text .plain "d "]], .text .plain "e"]
    (∀ node ∈ Node.subtrees nodes, IsFlat node) ∧ ∃ (runs : List Run) (registry : Registry),
      (composeInlines s (inlinesOf .plain nodes)).valueFrom .empty = .ok (runs.map .run, registry) ∧
      runs.flatMap (·.content) = "a b c d e" ∧ (runs.flatMap (·.content)).IsChain Text.Apart := by
  intro s nodes
  have hflat : ∀ node ∈ Node.subtrees nodes, IsFlat node := by decide +kernel
  have htexts : runningTexts nodes = ["a b", " ", "c ", "d ", "e"] := by decide +kernel
  have hwritable : Writable ((inlinesOf .plain nodes).flatMap (·.texts s)) := by decide +kernel
  obtain ⟨-, hyields⟩ := paragraph_spacing s .plain hflat
  obtain ⟨pieces, registry, hvalue, -, runs, rfl, hcontents, -, hiff⟩ := hyields.ok hwritable .empty
  refine ⟨hflat, runs, registry, hvalue, ?_, hiff.2 ?_⟩
  · rw [List.flatMap_def, hcontents, htexts]
    decide +kernel
  · rw [htexts]
    decide +kernel

/-- White space on both sides of a tag: the paragraph has two neighbouring spaces. -/
theorem spaces_across_tag :
    let s : Surroundings := ⟨⟨fun _ => none, fun _ _ => none⟩, ⟨[], [], 8000, [], "Cambria Math", "Consolas", 5000, []⟩⟩
    let html : Text := "<p>a <b> b</b></p>"
    ∃ page blocks registry, Node.parse ("<div>" ++ html ++ ("</div>" : Text)) = .ok page ∧
      (∀ node ∈ Node.subtrees page, IsFlat node ∧ node.isNamed "code" = false) ∧
      (compose s (Document.blocks (content page))).value = .ok (blocks, registry) ∧ kindsOf blocks = [.body] ∧
      (textRuns blocks).map (·.content) = ["a ", " b"] ∧ ¬ ((textRuns blocks).flatMap (·.content)).IsChain Text.Apart := by
  intro s html
  have hpage : (Node.parse ("<div>" ++ html ++ ("</div>" : Text))).toOption.any (fun page =>
      decide (∀ node ∈ Node.subtrees page, IsFlat node ∧ node.isNamed "code" = false) &&
      (compose s (Document.blocks (content page))).value.toOption.any fun found =>
        kindsOf found.1 == [.body] && (textRuns found.1).map (·.content) == ["a ", " b"]) = true := by decide +kernel
  obtain ⟨page, hparse, htest⟩ := exists_ok_of_any hpage
  rw [Bool.and_eq_true, decide_eq_true_eq] at htest
  obtain ⟨⟨blocks, registry⟩, hcompose, hruns⟩ := exists_ok_of_any htest.2
  rw [Bool.and_eq_true, beq_iff_eq, beq_iff_eq] at hruns
  refine ⟨page, blocks, registry, hparse, htest.1, hcompose, hruns.1, hruns.2, ?_⟩
  rw [List.flatMap_def, hruns.2]
  decide +kernel

end Document

end EquationExport
