import EquationExport.Proofs.Document.Finished
import EquationExport.Proofs.Document.Provenance
import EquationExport.Proofs.Document.Unabridged
import EquationExport.Proofs.Text.Residue

/-!
# Which pages become documents

Every text that a document is given from its page has been cleaned, so a page that can be read is refused for one reason
only: a text of it has U+FFFE or U+FFFF. The splicing at the end is never refused. So a page becomes a document exactly if
neither of the two is in a text that is written, and this is so if neither is in the texts and titles of the page.
-/

namespace EquationExport.Document

open EquationExport.Html (Node)
open EquationExport.Text EquationExport.Splice

variable {s : Surroundings} {page : List Node} {outline : List (Block Inline)} {node : Node} {t : Text} {c : CodePoint}

/-! ### The texts of a document -/

/-- What is written of an outline: two fonts, running text and code, and what stands for equations. -/
theorem mem_textsOf (h : t ∈ textsOf s outline) : t = s.settings.mathFont ∨ t = s.settings.codeFont ∨
    (∃ look broken, .text t look broken ∈ contentOfBlocks outline) ∨
      ∃ node, .equation node ∈ contentOfBlocks outline ∧ t = s.fallback node := by
  rcases List.mem_cons.1 h with hfont | h
  · exact .inl hfont
  obtain ⟨p, hp, ht⟩ := List.mem_flatMap.1 h
  have hrun : ∀ {content look broken}, t ∈ (s.run content look broken).texts → t = s.settings.codeFont ∨ t = content := by
    intro content look broken ht
    rcases List.mem_cons.1 ht with hcontent | hfont
    · exact .inr hcontent
    · simp only [Surroundings.run, Option.mem_toList] at hfont
      split at hfont
      · exact .inl (Option.some.inj hfont).symm
      · cases hfont
  rw [Inline.texts] at ht
  split at ht
  · cases p with
    | text content look broken =>
      rcases hrun ht with hfont | rfl
      · exact .inr (.inl hfont)
      · exact .inr (.inr (.inl ⟨look, broken, hp⟩))
    | equation node =>
      rw [Inline.piece] at ht
      split at ht
      · next hpiece =>
        split at hpiece
        · cases hpiece
        · cases hpiece
          rcases hrun ht with hfont | hcontent
          · exact .inr (.inl hfont)
          · exact .inr (.inr (.inr ⟨node, hp, hcontent⟩))
      · cases ht
  · cases ht

theorem mem_unixLines_of_mem_codeLines {line given : Text} (hline : line ∈ codeLines given) (hc : c ∈ line) :
    c ∈ given.normalizePreformatted.unixLines := by
  have hmem := mem_of_mem_splitOn hline hc
  split at hmem
  · exact List.dropLast_subset _ hmem
  · exact hmem

theorem mem_of_mem_codeLines {line given : Text} (hline : line ∈ codeLines given) (hc : c ∈ line) :
    c ∈ given.normalizePreformatted ∨ c = '\n' :=
  mem_of_mem_unixLines (mem_unixLines_of_mem_codeLines hline hc)

/-- What the page contributes has been cleaned. -/
theorem isSifted_of_mem_textsOf (hmath : Xml.isLegal s.settings.mathFont = true) (hcode : Xml.isLegal s.settings.codeFont = true)
    (h : t ∈ textsOf s (blocks (content page))) : IsSifted t := by
  have hlegal : ∀ {font : Text}, Xml.isLegal font = true → IsSifted font := by
    intro font hfont c hc
    have hxml := Xml.isLegal_iff.1 hfont c hc
    refine iff_of_true hxml (Bool.eq_false_iff.2 fun hend => ?_)
    exact absurd hxml (CodePoint.not_isXml_of_isBasicEnd hend)
  rcases mem_textsOf h with rfl | rfl | ⟨look, broken, hp⟩ | ⟨node, -, rfl⟩
  · exact hlegal hmath
  · exact hlegal hcode
  · cases drawn_blocks (content page) _ hp with
    | blank => exact fun _ hc => absurd hc List.not_mem_nil
    | running => exact isSifted_normalize _
    | code _ hline =>
      intro c hc
      rcases mem_of_mem_codeLines hline hc with hclean | rfl
      · exact isSifted_normalizePreformatted _ c hclean
      · decide
  · exact isSifted_sanitize _

/-! ### The texts of a page -/

/-- The texts that a node brings along by itself: its content if it is text, and the titles of an element. -/
def given (node : Node) : List Text :=
  match node with
  | .text _ content => [content]
  | .markup .cdata content => [content]
  | .markup .. => []
  | .element _ attributes _ => (attributes.filter (·.1 == ("title" : Text))).map (·.2)

/-- A node among some trees brings the code point along. -/
def Brings (page : List Node) (c : CodePoint) : Prop := ∃ node ∈ Node.subtrees page, ∃ t ∈ given node, c ∈ t

theorem Brings.mono {more : List Node} (h : Brings page c) (hsub : Node.subtrees page ⊆ Node.subtrees more) : Brings more c :=
  let ⟨node, hnode, ht⟩ := h
  ⟨node, hsub hnode, ht⟩

theorem brings_of_mem_texts (h : node ∈ Node.subtrees page) (ht : t ∈ node.texts) (hc : c ∈ t) : Brings page c := by
  obtain ⟨inner, hinner, hkind⟩ := List.mem_filterMap.1 ht
  refine ⟨inner, subtrees_children_subset_of_mem h hinner, t, ?_, hc⟩
  unfold Node.textOfKind? at hkind
  split at hkind
  · split at hkind
    · exact List.mem_singleton.2 (Option.some.inj hkind).symm
    · cases hkind
  · split at hkind
    · exact List.mem_singleton.2 (Option.some.inj hkind).symm
    · cases hkind
  · cases hkind

theorem brings_of_mem_textContent (h : node ∈ Node.subtrees page) (hc : c ∈ node.textContent) : Brings page c := by
  obtain ⟨t, ht, hc⟩ := List.mem_flatten.1 hc
  exact brings_of_mem_texts h ht hc

theorem brings_of_mem_spacedText (h : node ∈ Node.subtrees page) (hc : c ∈ node.spacedText) : c = ' ' ∨ Brings page c := by
  rcases mem_of_mem_join hc with hspace | ⟨piece, hpiece, hc⟩
  · exact .inl (List.mem_singleton.1 hspace)
  · obtain ⟨t, ht, rfl⟩ := List.mem_map.1 (List.mem_filter.1 hpiece).1
    exact .inr (brings_of_mem_texts h ht (mem_of_mem_trim hc))

theorem brings_of_mem_title (h : node ∈ Node.subtrees page) (hc : c ∈ (node.attribute? "title").getD []) : Brings page c := by
  cases node with
  | text => cases hc
  | markup => cases hc
  | element name attributes children =>
    rw [Node.attribute?] at hc
    cases hfound : attributes.find? (·.1 == ("title" : Text)) with
    | none =>
      rw [hfound] at hc
      cases hc
    | some a =>
      rw [hfound] at hc
      have htitle : (a.1 == ("title" : Text)) = true := by simpa using List.find?_some hfound
      exact ⟨_, h, a.2, List.mem_map_of_mem (List.mem_filter.2 ⟨List.mem_of_find?_eq_some hfound, htitle⟩), hc⟩

theorem eq_some_of_nonempty? {found : Option Text} (h : nonempty? found = some t) : found = some t := by
  unfold nonempty? at h
  split at h
  · exact h
  · cases h

/-- The LaTeX of an equation is text of an annotation, a title, or the text of the equation. -/
theorem brings_of_mem_latex {maxLength : Int} (h : node ∈ Node.subtrees page) (ht : node.latex? maxLength = some t) (hc : c ∈ t) :
    Brings page c := by
  rw [Node.latex?, Option.or_eq_some_iff, Option.or_eq_some_iff] at ht
  rcases ht with (hnote | ⟨-, htitle⟩) | ⟨-, htext⟩
  · obtain ⟨note, hmem, hnote⟩ := List.exists_of_findSome?_eq_some hnote
    have hpage : note ∈ Node.subtrees page := subtrees_children_subset_of_mem h (List.mem_filter.1 hmem).1
    rw [Node.latexNote?] at hnote
    split at hnote
    · obtain rfl := Option.some.inj (eq_some_of_nonempty? hnote)
      exact brings_of_mem_textContent hpage (mem_of_mem_trim hc)
    · cases hnote
  · rw [Node.titleLatex?] at htitle
    split at htitle
    · obtain rfl := Option.some.inj htitle
      exact brings_of_mem_title h (mem_of_mem_trim hc)
    · cases htitle
  · rw [Node.textLatex?] at htext
    split at htext
    · obtain rfl := Option.some.inj htext
      exact brings_of_mem_textContent h (mem_of_mem_trim hc)
    · cases htext

theorem brings_of_mem_fallbackText {maxLength : Int} (h : node ∈ Node.subtrees page) (hc : c ∈ node.fallbackText maxLength) :
    c = ' ' ∨ Brings page c := by
  rw [Node.fallbackText] at hc
  split at hc
  · next latex hlatex => exact .inr (brings_of_mem_latex h (eq_some_of_nonempty? hlatex) hc)
  · cases hfound : node.descendants.find? (·.hasClass "katex-mathml") with
    | none =>
      rw [hfound] at hc
      exact brings_of_mem_spacedText h hc
    | some inner =>
      rw [hfound] at hc
      exact brings_of_mem_spacedText (subtrees_children_subset_of_mem h (List.mem_of_find?_eq_some hfound)) hc

/-- Where one of the two is written, it has been brought along by the page. -/
theorem brings_of_mem_textsOf (hmath : Xml.isLegal s.settings.mathFont = true) (hcode : Xml.isLegal s.settings.codeFont = true)
    (h : t ∈ textsOf s (blocks (content page))) (hc : c ∈ t) (hend : c.isBasicEnd = true) : Brings page c := by
  have hspace := CodePoint.ne_space_of_isBasicEnd hend
  have hxml := CodePoint.not_isXml_of_isBasicEnd hend
  refine Brings.mono ?_ (subtrees_content_subset page)
  rcases mem_textsOf h with rfl | rfl | ⟨look, broken, hp⟩ | ⟨node, hp, rfl⟩
  · exact absurd (Xml.isLegal_iff.1 hmath c hc) hxml
  · exact absurd (Xml.isLegal_iff.1 hcode c hc) hxml
  · cases drawn_blocks (content page) _ hp with
    | blank => cases hc
    | running hnode => exact ⟨_, hnode, _, List.mem_singleton.2 rfl, (mem_normalize_iff hend).1 hc⟩
    | code hnode hline =>
      have hne : c ≠ '\n' := by
        rintro rfl
        exact absurd hend (by decide)
      have hclean := (mem_of_mem_codeLines hline hc).resolve_right hne
      exact brings_of_mem_textContent hnode ((mem_normalizePreformatted_iff hend).1 hclean)
  · cases drawn_blocks (content page) _ hp with
    | equation hnode => exact (brings_of_mem_fallbackText hnode ((mem_sanitize_iff hend).1 hc)).resolve_left hspace

/-! ### Pages -/

/-- Splicing into a written document is never refused. -/
theorem exists_spliced (mathFont : Text) (blocks : List (Block Piece)) (registry : Registry) :
    ∃ d, spliced mathFont blocks registry = .ok d := by
  obtain ⟨text, htext⟩ := exists_spliceAll (textOf (writeBlocks Piece.pending blocks)) registry.replacements
  exact ⟨_, by rw [spliced, htext]⟩

/-- A page whose texts can be written becomes a document. -/
theorem exists_create_of_writable {html : Text} (houtline : Document.outline html = .ok outline)
    (h : Writable (textsOf s outline)) : ∃ d, (create s html).value = .ok d := by
  obtain ⟨blocks, registry, hcompose, -, -⟩ := exists_compose_eq h
  obtain ⟨d, hd⟩ := exists_spliced s.settings.mathFont blocks registry
  refine ⟨d, ?_⟩
  rw [create, houtline, Traced.value_bind, hcompose]
  exact hd

/--
A cleaned text can be written exactly if the text as given has neither U+FFFE nor U+FFFF. A page that can be read becomes a
document exactly if none of the texts to be written has one of the two, which is so if no text and no title of the page
has one; otherwise it is refused for its characters. The fonts are taken to be legal.
-/
theorem create_accepts_iff {html : Text} (hpage : Node.parse ("<div>" ++ html ++ ("</div>" : Text)) = .ok page)
    (hmath : Xml.isLegal s.settings.mathFont = true) (hcode : Xml.isLegal s.settings.codeFont = true) :
    (∀ t : Text, ((∃ u, Xml.writable t.sanitize = .ok u) ↔ ∀ c ∈ t, c.isBasicEnd = false) ∧
      ((∃ u, Xml.writable t.normalize = .ok u) ↔ ∀ c ∈ t, c.isBasicEnd = false) ∧
      ((∃ u, Xml.writable t.normalizePreformatted = .ok u) ↔ ∀ c ∈ t, c.isBasicEnd = false)) ∧
    ((∃ d, (create s html).value = .ok d) ↔ ∀ t ∈ textsOf s (blocks (content page)), ∀ c ∈ t, c.isBasicEnd = false) ∧
    ((∃ d, (create s html).value = .ok d) ∨ (create s html).value = .error (.unwritable .forbiddenCharacter)) ∧
    ((∀ node ∈ Node.subtrees page, ∀ t ∈ given node, ∀ c ∈ t, c.isBasicEnd = false) → ∃ d, (create s html).value = .ok d) := by
  have houtline : Document.outline html = .ok (blocks (content page)) := by
    rw [Document.outline, hpage]
    rfl
  have hwritable : Writable (textsOf s (blocks (content page))) ↔
      ∀ t ∈ textsOf s (blocks (content page)), ∀ c ∈ t, c.isBasicEnd = false := by
    refine forall₂_congr fun t ht => Xml.isLegal_iff.trans (forall₂_congr fun c hc => ?_)
    exact isSifted_of_mem_textsOf hmath hcode ht c hc
  have hiff : (∃ d, (create s html).value = .ok d) ↔ Writable (textsOf s (blocks (content page))) := by
    refine ⟨?_, exists_create_of_writable houtline⟩
    rintro ⟨d, hd⟩
    by_contra hnot
    rw [create_eq_error houtline hnot] at hd
    cases hd
  refine ⟨fun t => ⟨?_, ?_, ?_⟩, hiff.trans hwritable, ?_, fun hnone => ?_⟩
  · exact exists_writable_iff_of_mem_iff (isSifted_sanitize t) mem_sanitize_iff
  · exact exists_writable_iff_of_mem_iff (isSifted_normalize t) mem_normalize_iff
  · exact exists_writable_iff_of_mem_iff (isSifted_normalizePreformatted t) mem_normalizePreformatted_iff
  · by_cases h : Writable (textsOf s (blocks (content page)))
    · exact .inl (hiff.2 h)
    · exact .inr (create_eq_error houtline h)
  · refine hiff.2 (hwritable.2 fun t ht c hc => Bool.eq_false_iff.2 fun hend => ?_)
    obtain ⟨node, hnode, given, hgiven, hmem⟩ := brings_of_mem_textsOf hmath hcode ht hc hend
    simp [hnone node hnode given hgiven c hmem] at hend

/-- No converter takes an equation. -/
def unaided : Surroundings :=
  ⟨⟨fun _ => none, fun _ _ => none⟩, ⟨[], [], 8000, [], "Cambria Math", "Consolas", 5000, []⟩⟩

/-- A page with a control character, a lone surrogate and an equation. -/
theorem create_accepts_odd :
    let html : Text := ("<p>a\u0001b" : Text) ++ (CodePoint.ofNat 0xD835 :: ("<span class=\"katex\">\\x</span></p>" : Text))
    ∃ (page : List Node) (d : Exported), Node.parse ("<div>" ++ html ++ ("</div>" : Text)) = .ok page ∧
      (∀ node ∈ Node.subtrees page, ∀ t ∈ given node, ∀ c ∈ t, c.isBasicEnd = false) ∧ (create unaided html).value = .ok d := by
  intro html
  have hpage : (Node.parse ("<div>" ++ html ++ ("</div>" : Text))).toOption.any (fun page =>
      (Node.subtrees page).all fun node => (given node).all fun t => t.all fun c => !c.isBasicEnd) = true := by decide +kernel
  obtain ⟨page, hparse, htest⟩ := exists_ok_of_any hpage
  have hnone : ∀ node ∈ Node.subtrees page, ∀ t ∈ given node, ∀ c ∈ t, c.isBasicEnd = false := by
    simpa only [List.all_eq_true, Bool.not_eq_true'] using htest
  obtain ⟨d, hd⟩ := (create_accepts_iff (s := unaided) hparse (by decide) (by decide)).2.2.2 hnone
  exact ⟨page, d, hparse, hnone, hd⟩

/-- The page is refused for its characters. -/
def isRefused : Except Fault Exported → Bool
  | .error (.unwritable .forbiddenCharacter) => true
  | _ => false

theorem eq_of_isRefused {result : Except Fault Exported} (h : isRefused result = true) :
    result = .error (.unwritable .forbiddenCharacter) := by
  unfold isRefused at h
  split at h
  · rfl
  · cases h

/-- U+FFFE is left in a text that is cleaned, and a page with it becomes no document. -/
theorem create_refuses_basicEnd :
    Xml.writable (Text.sanitize "a\uFFFEb") = .error .forbiddenCharacter ∧
      (create unaided "<p>a\uFFFEb</p>").value = .error (.unwritable .forbiddenCharacter) := by
  have hrefused : isRefused (create unaided "<p>a\uFFFEb</p>").value = true := by decide +kernel
  exact ⟨by decide +kernel, eq_of_isRefused hrefused⟩

end EquationExport.Document
