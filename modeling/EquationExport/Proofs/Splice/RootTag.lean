import Mathlib.Data.List.Nodup
import EquationExport.Proofs.Splice.DocumentTag
import EquationExport.Proofs.Xml.Root

/-!
# Declaring the namespace at the root

In a well-formed document the root is to declare the prefix of equations, and all else is to stay. This is what becomes of
the document if the tag that is found in the text is the root's, up to its end, and the tag does not close itself. The tag
ends for the search at the first `>`, though, which may stand in a value or behind the slash of a tag that closes itself;
the name of the root may stand in the prolog before; and the text by which a declaration is found is not the only way to
write one.
-/

namespace EquationExport.Splice

open EquationExport.Text EquationExport.Xml

/-- The name of the root. -/
def documentName : WrittenName := (some ("w" : Text), "document")

/-- The name of the attribute that declares the prefix of equations. -/
def mathPrefix : WrittenName := (some ("xmlns" : Text), "m")

/-- The tag declares the prefix of equations, and not twice. -/
def DeclaresOnce (tag : WrittenTag) : Prop := (tag.attributes.map (·.1)).count mathPrefix = 1

/-- The opening tag is left alone, or has the declaration more in front of its end. -/
def IsDeclaredAs (opening opening' : Text) (tag tag' : WrittenTag) : Prop :=
  opening' = opening ∧ tag' = tag ∨
    ∃ b, opening = b ++ tagEnd tag.closed ∧ opening' = b ++ (mathDeclaration ++ tagEnd tag.closed) ∧
      tag' = { tag with attributes := tag.attributes ++ [(mathPrefix, mathNamespace)] }

variable {prolog : Text → Prop} {document front opening rest before attributes behind : Text} {tag : WrittenTag}

theorem declaresOnce_iff (h : (tag.attributes.map (·.1)).Nodup) : DeclaresOnce tag ↔ mathPrefix ∈ tag.attributes.map (·.1) :=
  ⟨fun honce => List.one_le_count_iff.1 (Nat.le_of_eq honce.symm), List.count_eq_one_of_mem h⟩

/-! ### The declaration as an attribute -/

/-- The declaration is an attribute behind a space. -/
theorem exists_mathDeclaration : ∃ added, mathDeclaration = (" " : Text) ++ added ∧
    Takes attribute? added (mathPrefix, mathNamespace) := by
  refine ⟨("xmlns:m=\"" : Text) ++ mathNamespace ++ ("\"" : Text), rfl, ?_⟩
  have hread : attribute? (("xmlns:m=\"" : Text) ++ mathNamespace ++ ("\"" : Text)) = some ((mathPrefix, mathNamespace), []) := by
    decide
  obtain ⟨u, heq, -, -, htakes⟩ := isLocal_attribute? _ _ _ hread
  rw [List.append_nil] at heq
  exact heq ▸ htakes

/-- An opening tag is read with the declaration in front of its end. -/
theorem exists_openingTag?_mathDeclaration {s : Text} (h : openingTag? s = some (tag, rest)) :
    ∃ b, s = b ++ (tagEnd tag.closed ++ rest) ∧ ∀ more,
      openingTag? (b ++ (mathDeclaration ++ (tagEnd tag.closed ++ more))) =
        some ({ tag with attributes := tag.attributes ++ [(mathPrefix, mathNamespace)] }, more) := by
  obtain ⟨added, hadded, htakes⟩ := exists_mathDeclaration
  obtain ⟨b, hb, hread⟩ := exists_of_openingTag? htakes h
  refine ⟨b, hb, fun more => ?_⟩
  rw [hadded, List.append_assoc]
  exact hread more

/-- What does not start with the first code point of `added` tells where `added` has been put in. -/
theorem append_inj_of_insert {a a' b b' added : Text} {c : CodePoint} (h : a ++ b = a' ++ b')
    (hinsert : a ++ (c :: added ++ b) = a' ++ (c :: added ++ b')) (hb : b.head? ≠ some c) (hb' : b'.head? ≠ some c) :
    a = a' ∧ b = b' := by
  have key : ∀ {a a' b b' d : Text}, a' = a ++ d → b = d ++ b' → a ++ (c :: added ++ b) = a' ++ (c :: added ++ b') →
      b.head? ≠ some c → d = [] := by
    rintro a _ _ b' d rfl rfl hinsert hb
    cases d with
    | nil => rfl
    | cons x d =>
      rw [List.append_assoc] at hinsert
      obtain ⟨rfl, -⟩ := List.cons.inj (List.append_cancel_left hinsert)
      exact absurd rfl hb
  rcases List.append_eq_append_iff.1 h with ⟨d, ha, hd⟩ | ⟨d, ha, hd⟩
  · obtain rfl := key ha hd hinsert hb
    exact ⟨by rw [ha, List.append_nil], by rw [hd, List.nil_append]⟩
  · obtain rfl := key ha hd hinsert.symm hb'
    exact ⟨by rw [ha, List.append_nil], by rw [hd, List.nil_append]⟩

/-! ### The tag that is found -/

/-- In a document with this root a tag is found. -/
theorem exists_tagged (h : IsDocument prolog document front opening rest tag) (hname : tag.name = documentName) :
    ∃ before attributes behind, Tagged document before attributes behind := by
  obtain ⟨b, hb, -⟩ := exists_openingTag?_mathDeclaration h.opening
  obtain ⟨⟨name, after⟩, hqualified, hread⟩ := Option.bind_eq_some_iff.1 h.opening
  obtain ⟨⟨found, rest'⟩, hattributes, hread⟩ := Option.bind_eq_some_iff.1 hread
  obtain ⟨rfl, -⟩ := Prod.mk.inj (Option.some.inj hread)
  obtain rfl : name = documentName := hname
  have hangle : CodePoint.ofChar '>' ∈ CodePoint.ofChar '<' :: (opening ++ rest) := by
    have hend : ∀ closed, CodePoint.ofChar '>' ∈ tagEnd closed := by decide
    rw [hb]
    exact List.mem_cons_of_mem _ (List.mem_append_right _ (List.mem_append_left _ (hend _)))
  have hnamed : NamesDocument (CodePoint.ofChar '<' :: (opening ++ rest)) := by
    obtain ⟨-, heq, -⟩ := qualifiedName?_eq_some hqualified
    refine ⟨after, by rw [heq]; rfl, ?_⟩
    obtain ⟨c, more, rfl, hc⟩ := exists_cons_of_attributes? hattributes
    simp only [CodePoint.isBlank, Bool.or_eq_true, beq_iff_eq] at hc
    rcases hc with (((rfl | rfl) | rfl) | rfl) | rfl | rfl <;> rfl
  by_contra hnone
  have hbreak := breakAt?_eq_none_of_not_tagged fun before attributes behind hfound => hnone ⟨before, attributes, behind, hfound⟩
  have hthere := breakAt?_eq_none_iff.1 hbreak front.length (by rw [h.eq, List.length_append]; omega)
  rw [h.eq, List.drop_left] at hthere
  exact (documentTag?_eq_none_iff hangle).1 hthere hnamed

/-! ### The document with the declaration -/

/-- With the declaration in its tag the document is as it is to be, if the root did not declare the prefix before. -/
theorem exists_isDocument_insert (h : IsDocument prolog document front opening rest tag) (hnot : ¬ DeclaresOnce tag) :
    ∃ b opening' tag', opening = b ++ tagEnd tag.closed ∧
      IsDocument prolog (front ++ CodePoint.ofChar '<' :: (b ++ (mathDeclaration ++ (tagEnd tag.closed ++ rest)))) front
        opening' rest tag' ∧ DeclaresOnce tag' ∧ IsDeclaredAs opening opening' tag tag' := by
  obtain ⟨b, hb, hread⟩ := exists_openingTag?_mathDeclaration h.opening
  rw [← List.append_assoc] at hb
  obtain rfl := List.append_cancel_right hb
  rw [declaresOnce_iff h.distinct] at hnot
  have hdistinct : ((tag.attributes ++ [(mathPrefix, mathNamespace)]).map (·.1)).Nodup := by
    rw [List.map_append]
    exact h.distinct.append (List.nodup_singleton _) (List.disjoint_singleton.2 hnot)
  refine ⟨b, b ++ (mathDeclaration ++ tagEnd tag.closed), { tag with attributes := _ }, rfl,
    ⟨?_, h.prolog, ?_, hdistinct, h.rear⟩, (declaresOnce_iff hdistinct).2 ?_, .inr ⟨b, rfl, rfl, rfl⟩⟩
  · simp only [List.append_assoc]
  · simpa only [List.append_assoc] using hread rest
  · rw [List.map_append]
    exact List.mem_append_right _ (List.mem_singleton_self _)

/-- If the declaration was put in at some `>`, and the document is as it is to be, then that was the end of the opening tag. -/
theorem isOpen_of_isDocument_insert {head opening' : Text} {tag' : WrittenTag}
    (h : IsDocument prolog (head ++ CodePoint.ofChar '>' :: behind) front opening rest tag)
    (h' : IsDocument prolog (head ++ (mathDeclaration ++ CodePoint.ofChar '>' :: behind)) front opening' rest tag')
    (hdeclared : IsDeclaredAs opening opening' tag tag') : ¬ DeclaresOnce tag ∧ tag.closed = false ∧ behind = rest := by
  obtain ⟨added, hadded⟩ := mathDeclaration_eq_cons
  have hnew := h'.eq
  rw [hadded] at hnew
  rcases hdeclared with ⟨rfl, -⟩ | ⟨b, rfl, rfl, rfl⟩
  · -- the document has changed, so the opening tag has
    obtain ⟨hspace, -⟩ := List.cons.inj (List.append_cancel_left (hnew.trans h.eq.symm))
    exact absurd hspace (by decide)
  · have hold : head ++ CodePoint.ofChar '>' :: behind =
        (front ++ CodePoint.ofChar '<' :: b) ++ (tagEnd tag.closed ++ rest) := by
      rw [h.eq, List.append_assoc, List.append_assoc, List.cons_append]
    have hnew : head ++ (CodePoint.ofChar ' ' :: added ++ CodePoint.ofChar '>' :: behind) =
        (front ++ CodePoint.ofChar '<' :: b) ++ (CodePoint.ofChar ' ' :: added ++ (tagEnd tag.closed ++ rest)) := by
      rw [hnew, hadded]
      simp only [List.append_assoc, List.cons_append]
    have hfin : (tagEnd tag.closed ++ rest).head? ≠ some (CodePoint.ofChar ' ') := by
      cases tag.closed <;> exact fun hhead => absurd (Option.some.inj hhead) (by decide)
    obtain ⟨-, hends⟩ := append_inj_of_insert hold hnew (fun hhead => absurd (Option.some.inj hhead) (by decide)) hfin
    have hopen : tag.closed = false := by
      cases hclosed : tag.closed with
      | false => rfl
      | true =>
        rw [hclosed] at hends
        exact absurd (List.cons.inj hends).1 (by decide)
    rw [hopen] at hends
    refine ⟨fun honce => ?_, hopen, (List.cons.inj hends).2⟩
    have hdistinct := h'.distinct
    rw [List.map_append] at hdistinct
    exact List.disjoint_of_nodup_append hdistinct ((declaresOnce_iff h.distinct).1 honce) (List.mem_singleton_self _)

/--
The namespace is declared as it is to be (once at the root of a well-formed document that is otherwise the same) exactly in
these cases. If the tag that is found holds the text of a declaration, the root declares the prefix. If not, the root does not
declare it, its opening tag does not close itself, and the tag that is found ends where the opening tag does. Declaring it
again changes nothing in any case.
-/
theorem declareMathNamespace_isDocument_iff (h : IsDocument prolog document front opening rest tag)
    (hname : tag.name = documentName) :
    ((∃ opening' tag', IsDocument prolog (declareMathNamespace document) front opening' rest tag' ∧
        DeclaresOnce tag' ∧ IsDeclaredAs opening opening' tag tag') ↔
      ∃ before attributes behind, Tagged document before attributes behind ∧
        (DeclaresMath attributes → DeclaresOnce tag) ∧
        (¬ DeclaresMath attributes → ¬ DeclaresOnce tag ∧ tag.closed = false ∧ behind = rest)) ∧
    declareMathNamespace (declareMathNamespace document) = declareMathNamespace document := by
  refine ⟨?_, declareMathNamespace_declareMathNamespace document⟩
  constructor
  · rintro ⟨opening', tag', h', honce, hdeclared⟩
    obtain ⟨before, attributes, behind, htagged⟩ := exists_tagged h hname
    refine ⟨before, attributes, behind, htagged, fun hfound => ?_, fun hfound => ?_⟩
    · rw [declareMathNamespace_of_declares htagged hfound] at h'
      obtain ⟨-, rfl⟩ := h.unique h'
      exact honce
    · obtain ⟨head, heq, hresult⟩ := exists_declareMathNamespace_insert htagged hfound
      rw [hresult] at h'
      rw [heq] at h
      exact isOpen_of_isDocument_insert h h' hdeclared
  · rintro ⟨before, attributes, behind, htagged, hdeclares, hnot⟩
    by_cases hfound : DeclaresMath attributes
    · rw [declareMathNamespace_of_declares htagged hfound]
      exact ⟨opening, tag, h, hdeclares hfound, .inl ⟨rfl, rfl⟩⟩
    · obtain ⟨honce, hopen, rfl⟩ := hnot hfound
      obtain ⟨b, opening', tag', hb, h', honce', hdeclared⟩ := exists_isDocument_insert h honce
      obtain ⟨head, heq, hresult⟩ := exists_declareMathNamespace_insert htagged hfound
      have hend : tagEnd tag.closed = (">" : Text) := by rw [hopen]; rfl
      have hsame : head ++ CodePoint.ofChar '>' :: behind =
          (front ++ CodePoint.ofChar '<' :: b) ++ CodePoint.ofChar '>' :: behind := by
        rw [← heq, h.eq, hb, hend, List.append_assoc, List.append_assoc]
        rfl
      obtain rfl := List.append_cancel_right hsame
      rw [hend] at h'
      refine ⟨opening', tag', ?_, honce', hdeclared⟩
      rw [hresult, List.append_assoc]
      exact h'

/-- A document with a prolog, white space in the opening tag, and more white space at the end. -/
theorem declareMathNamespace_page :
    ∃ opening rest tag, IsDocument (· = ("<?xml version=\"1.0\"?><!--page-->" : Text))
        "<?xml version=\"1.0\"?><!--page--><w:document w:a='1' ><w:p/></w:document>\n"
        "<?xml version=\"1.0\"?><!--page-->" opening rest tag ∧ tag.name = documentName ∧
      ∃ opening' tag', IsDocument (· = ("<?xml version=\"1.0\"?><!--page-->" : Text))
        (declareMathNamespace "<?xml version=\"1.0\"?><!--page--><w:document w:a='1' ><w:p/></w:document>\n")
        "<?xml version=\"1.0\"?><!--page-->" opening' rest tag' ∧ DeclaresOnce tag' ∧ IsDeclaredAs opening opening' tag tag' := by
  let tag : WrittenTag := ⟨documentName, [((some ("w" : Text), "a"), "1")], false⟩
  let paragraph : WrittenTag := ⟨(some ("w" : Text), "p"), [], true⟩
  have hparagraph : token? "<w:p/></w:document>\n" = some (Token.opening paragraph, ("</w:document>\n" : Text)) := rfl
  have hclosing : token? "</w:document>\n" = some (Token.closing documentName, ("\n" : Text)) := rfl
  have hblank : token? "\n" = some (Token.literal "\n", []) := rfl
  have hcloses : Closes [documentName] "<w:p/></w:document>\n"
      [(1, .opening paragraph), (0, .closing documentName), (0, .literal "\n")] :=
    .step (by decide) hparagraph rfl (.step (by decide) hclosing rfl (.step (by decide) hblank rfl .done))
  have hends : EndsDocument tag "<w:p/></w:document>\n" := by
    refine ⟨_, hcloses, fun token htoken => ?_⟩
    simp only [List.mem_cons, Prod.mk.injEq, Nat.zero_ne_one, false_and, true_and, List.not_mem_nil, or_false, false_or] at htoken
    rcases htoken with rfl | rfl
    · exact .inr rfl
    · exact .inl (.inl ⟨_, rfl, rfl⟩)
  have hdocument : IsDocument (· = ("<?xml version=\"1.0\"?><!--page-->" : Text))
      "<?xml version=\"1.0\"?><!--page--><w:document w:a='1' ><w:p/></w:document>\n"
      "<?xml version=\"1.0\"?><!--page-->" "w:document w:a='1' >" "<w:p/></w:document>\n" tag :=
    ⟨rfl, rfl, rfl, List.nodup_singleton _, hends⟩
  have htagged : Tagged "<?xml version=\"1.0\"?><!--page--><w:document w:a='1' ><w:p/></w:document>\n"
      "<?xml version=\"1.0\"?><!--page-->" " w:a='1' " "<w:p/></w:document>\n" := tagged_iff.2 (by decide)
  have honce : ¬ DeclaresOnce tag := by
    unfold DeclaresOnce
    decide
  have hdeclares : ¬ DeclaresMath " w:a='1' " := by
    unfold DeclaresMath
    decide
  exact ⟨_, _, tag, hdocument, rfl, (declareMathNamespace_isDocument_iff hdocument rfl).1.2
    ⟨_, _, _, htagged, fun h => absurd h hdeclares, fun _ => ⟨honce, rfl, rfl⟩⟩⟩

/-- The root of an empty document closes itself: the declaration ends up behind the slash, where no reader takes it. -/
theorem declareMathNamespace_empty_root :
    (∃ opening tag, IsDocument (· = []) "<w:document xmlns:w=\"w\"/>" [] opening [] tag ∧ tag.name = documentName) ∧
    ∀ prolog front opening rest tag,
      ¬ IsDocument prolog (declareMathNamespace "<w:document xmlns:w=\"w\"/>") front opening rest tag := by
  have htagged : Tagged "<w:document xmlns:w=\"w\"/>" [] " xmlns:w=\"w\"/" [] := tagged_iff.2 (by decide)
  have hdeclares : ¬ DeclaresMath " xmlns:w=\"w\"/" := by
    unfold DeclaresMath
    decide
  constructor
  · let tag : WrittenTag := ⟨documentName, [((some ("xmlns" : Text), "w"), "w")], true⟩
    exact ⟨"w:document xmlns:w=\"w\"/>", tag, ⟨rfl, rfl, rfl, List.nodup_singleton _, [], .done, fun _ h => by cases h⟩, rfl⟩
  · intro prolog front opening rest tag h
    let inside : Text := ("w:document" : Text) ++ ((" xmlns:w=\"w\"/" : Text) ++ mathDeclaration) ++ (">" : Text)
    have heq : CodePoint.ofChar '<' :: inside = front ++ CodePoint.ofChar '<' :: (opening ++ rest) :=
      (declareMathNamespace_of_not_declares htagged hdeclares).symm.trans h.eq
    have hread : openingTag? (opening ++ rest) = none := by
      cases front with
      | nil =>
        rw [← (List.cons.inj heq).2]
        rfl
      | cons c front =>
        -- there is one bracket only, and it is in front
        have hmem : CodePoint.ofChar '<' ∈ inside := by
          rw [(List.cons.inj heq).2]
          exact List.mem_append_right _ List.mem_cons_self
        exact absurd hmem (by decide)
    rw [h.opening] at hread
    cases hread

end EquationExport.Splice
