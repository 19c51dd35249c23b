import EquationExport.Proofs.Text.Passing
import EquationExport.Splice

/-!
# The document tag

The tag to which the namespace of equations is added is looked for in the text: the first place at which the name
`w:document` ends behind `<`, up to the next `>`. Whether a place counts is settled by the text in front of that `>`,
so a tag that was found is found again when its attributes or what follows it are changed, and declaring the
namespace twice does what declaring it once does.
-/

namespace EquationExport.Splice

open EquationExport.Text

/-! ### Where the tag is found -/

/-- The name of the document tag stands at the front, and the word ends behind it. -/
def NamesDocument (s : Text) : Prop := ∃ rest, s = ("<w:document" : Text) ++ rest ∧ rest.atWordEnd = true

theorem documentTag?_eq_some_iff {s attributes rest : Text} :
    documentTag? s = some (attributes, rest) ↔
      s = ("<w:document" : Text) ++ (attributes ++ CodePoint.ofChar '>' :: rest) ∧ CodePoint.ofChar '>' ∉ attributes ∧
        (attributes ++ (">" : Text)).atWordEnd = true := by
  have hword : ∀ r : Text, (attributes ++ CodePoint.ofChar '>' :: r).atWordEnd = (attributes ++ (">" : Text)).atWordEnd := by
    intro r
    cases attributes <;> rfl
  unfold documentTag?
  constructor
  · intro h
    split at h
    · next r hr =>
      split at h
      · next hend =>
        obtain ⟨rfl, hangle⟩ := breakOn?_singleton_eq_some_iff.1 h
        exact ⟨dropPrefix?_eq_some_iff.1 hr, hangle, (hword rest) ▸ hend⟩
      · cases h
    · cases h
  · rintro ⟨rfl, hangle, hend⟩
    rw [dropPrefix?_append]
    simp only
    rw [if_pos ((hword rest).trans hend)]
    exact breakOn?_of_not_mem hangle

/-- A text with a `>` that is not at its front begins with a document tag if it begins with the name of one. -/
theorem documentTag?_eq_none_iff {s : Text} (hangle : CodePoint.ofChar '>' ∈ s) :
    documentTag? s = none ↔ ¬ NamesDocument s := by
  rw [← not_iff_not, not_not, ← ne_eq, Option.ne_none_iff_exists']
  constructor
  · rintro ⟨⟨attributes, rest⟩, h⟩
    obtain ⟨rfl, -, hend⟩ := documentTag?_eq_some_iff.1 h
    refine ⟨_, rfl, ?_⟩
    cases attributes <;> exact hend
  · rintro ⟨r, rfl, hend⟩
    have hr : CodePoint.ofChar '>' ∈ r := (List.mem_append.1 hangle).resolve_left (by decide)
    obtain ⟨attributes, rest, rfl, hattributes⟩ := List.eq_append_cons_of_mem hr
    refine ⟨(attributes, rest), documentTag?_eq_some_iff.2 ⟨rfl, hattributes, ?_⟩⟩
    cases attributes <;> exact hend

/-- Whether the name of a document tag stands in front of an opening angle does not depend on what follows. -/
theorem namesDocument_append_cons_iff {u : Text} (hu : u ≠ []) (v : Text) :
    NamesDocument (u ++ CodePoint.ofChar '<' :: v) ↔ NamesDocument (u ++ ("<" : Text)) := by
  have key : ∀ v, NamesDocument (u ++ CodePoint.ofChar '<' :: v) ↔
      ∃ w, u = ("<w:document" : Text) ++ w ∧ (w ++ ("<" : Text)).atWordEnd = true := by
    intro v
    have hword : ∀ w : Text, (w ++ CodePoint.ofChar '<' :: v).atWordEnd = (w ++ ("<" : Text)).atWordEnd := by
      intro w
      cases w <;> rfl
    constructor
    · rintro ⟨rest, h, hend⟩
      obtain ⟨c, u, rfl⟩ := List.exists_cons_of_ne_nil hu
      rw [show ("<w:document" : Text) = CodePoint.ofChar '<' :: ("w:document" : Text) from rfl, List.cons_append,
        List.cons_append, List.cons.injEq] at h
      obtain ⟨rfl, htail⟩ := h
      have hname : ("w:document" : Text) <+: u :=
        prefix_of_prefix_append_cons (c := CodePoint.ofChar '<') (s := v) (by decide) ⟨rest, htail.symm⟩
      obtain ⟨w, rfl⟩ := hname
      rw [List.append_assoc] at htail
      obtain rfl := List.append_cancel_left htail
      exact ⟨w, rfl, (hword w).symm.trans hend⟩
    · rintro ⟨w, rfl, hend⟩
      exact ⟨w ++ CodePoint.ofChar '<' :: v, List.append_assoc _ _ _, (hword w).trans hend⟩
  rw [key v]
  exact (key []).symm

/-- The first document tag of a document: it has these attributes and stands behind `before`, where none is named. -/
structure Tagged (document before attributes rest : Text) : Prop where
  eq : document = before ++ (("<w:document" : Text) ++ attributes) ++ CodePoint.ofChar '>' :: rest
  angle : CodePoint.ofChar '>' ∉ attributes
  wordEnd : (attributes ++ (">" : Text)).atWordEnd = true
  first : ∀ u, u ≠ [] → u <:+ before → ¬ NamesDocument (u ++ ("<" : Text))

variable {document before attributes rest : Text}

theorem tagged_iff :
    Tagged document before attributes rest ↔ Text.breakAt? documentTag? document = some (before, attributes, rest) := by
  -- the tag ends with an angle, so every place in front of it has one behind
  have hpasses : ∀ v : Text, CodePoint.ofChar '>' ∈ v → (Passes documentTag? before (CodePoint.ofChar '<' :: v) ↔
      ∀ u, u ≠ [] → u <:+ before → ¬ NamesDocument (u ++ ("<" : Text))) := by
    intro v hv
    refine forall_congr' fun u => forall_congr' fun hu => forall_congr' fun _ => ?_
    rw [documentTag?_eq_none_iff (List.mem_append_right _ (List.mem_cons_of_mem _ hv)),
      namesDocument_append_cons_iff hu]
  have hmem : CodePoint.ofChar '>' ∈ ("w:document" : Text) ++ (attributes ++ CodePoint.ofChar '>' :: rest) := by simp
  rw [breakAt?_eq_some_iff]
  constructor
  · rintro ⟨rfl, hangle, hend, hfirst⟩
    refine ⟨_, ?_, documentTag?_eq_some_iff.2 ⟨rfl, hangle, hend⟩, (hpasses _ hmem).2 hfirst⟩
    simp only [List.append_assoc]
  · rintro ⟨after, rfl, hafter, hfirst⟩
    obtain ⟨rfl, hangle, hend⟩ := documentTag?_eq_some_iff.1 hafter
    exact ⟨by simp only [List.append_assoc], hangle, hend, (hpasses _ hmem).1 hfirst⟩

theorem breakAt?_eq_none_of_not_tagged (h : ∀ before attributes rest, ¬ Tagged document before attributes rest) :
    Text.breakAt? documentTag? document = none :=
  Option.eq_none_iff_forall_ne_some.2 fun ⟨_, _, _⟩ hfound => h _ _ _ (tagged_iff.2 hfound)

/-- A tag is found again when its attributes are changed, or what follows it. -/
theorem Tagged.change (h : Tagged document before attributes rest) {attributes' : Text}
    (hangle : CodePoint.ofChar '>' ∉ attributes') (hend : (attributes' ++ (">" : Text)).atWordEnd = true)
    (rest' : Text) :
    Tagged (before ++ (("<w:document" : Text) ++ attributes') ++ CodePoint.ofChar '>' :: rest') before attributes' rest' :=
  ⟨rfl, hangle, hend, h.first⟩

theorem Tagged.changeRest (h : Tagged document before attributes rest) (rest' : Text) :
    Tagged (before ++ (("<w:document" : Text) ++ attributes) ++ CodePoint.ofChar '>' :: rest') before attributes rest' :=
  h.change h.angle h.wordEnd rest'

/-! ### Declaring the namespace -/

/-- The declaration that is added to the document tag. -/
def mathDeclaration : Text := (" xmlns:m=\"" : Text) ++ mathNamespace ++ ("\"" : Text)

theorem mathDeclaration_eq_cons : ∃ rest, mathDeclaration = CodePoint.ofChar ' ' :: rest := ⟨_, rfl⟩

theorem underscore_not_mem_mathDeclaration : CodePoint.ofChar '_' ∉ mathDeclaration := by decide

theorem angle_not_mem_mathDeclaration : CodePoint.ofChar '<' ∉ mathDeclaration := by decide

/-- The text by which a tag is taken to declare the namespace. -/
def DeclaresMath (attributes : Text) : Prop := ("xmlns:m=" : Text) <:+: attributes

theorem declareMathNamespace_of_declares (h : Tagged document before attributes rest) (hdeclares : DeclaresMath attributes) :
    declareMathNamespace document = document := by
  unfold declareMathNamespace
  rw [tagged_iff.1 h]
  exact if_pos (contains_iff.2 hdeclares)

theorem declareMathNamespace_of_not_declares (h : Tagged document before attributes rest)
    (hdeclares : ¬ DeclaresMath attributes) :
    declareMathNamespace document =
      before ++ (("<w:document" : Text) ++ (attributes ++ mathDeclaration)) ++ CodePoint.ofChar '>' :: rest := by
  unfold declareMathNamespace
  rw [tagged_iff.1 h]
  simp only
  rw [if_neg fun hcontains => hdeclares (contains_iff.1 hcontains)]
  simp only [List.append_assoc, mathDeclaration]
  rfl

/-- The declaration is put in at one place. -/
theorem exists_declareMathNamespace_insert (h : Tagged document before attributes rest) (hdeclares : ¬ DeclaresMath attributes) :
    ∃ head, document = head ++ CodePoint.ofChar '>' :: rest ∧
      declareMathNamespace document = head ++ (mathDeclaration ++ CodePoint.ofChar '>' :: rest) := by
  refine ⟨_, h.eq, ?_⟩
  rw [declareMathNamespace_of_not_declares h hdeclares]
  simp only [List.append_assoc]

/-- Without a document tag nothing is declared. -/
theorem declareMathNamespace_of_not_tagged (h : ∀ before attributes rest, ¬ Tagged document before attributes rest) :
    declareMathNamespace document = document := by
  unfold declareMathNamespace
  rw [breakAt?_eq_none_of_not_tagged h]

/-- The tag of a document in which the namespace has been declared. -/
theorem Tagged.declare (h : Tagged document before attributes rest) :
    ∃ attributes', Tagged (declareMathNamespace document) before attributes' rest ∧ DeclaresMath attributes' ∧
      (attributes' = attributes ∨ attributes' = attributes ++ mathDeclaration) := by
  by_cases hdeclares : DeclaresMath attributes
  · rw [declareMathNamespace_of_declares h hdeclares]
    exact ⟨attributes, h, hdeclares, .inl rfl⟩
  · rw [declareMathNamespace_of_not_declares h hdeclares]
    refine ⟨_, h.change ?_ ?_ rest, ?_, .inr rfl⟩
    · exact fun hin => (List.mem_append.1 hin).elim h.angle (by decide)
    · cases attributes with
      | nil => decide
      | cons c attributes => exact h.wordEnd
    · exact List.IsInfix.trans (by decide) (List.suffix_append _ _).isInfix

/-- Declaring the namespace again changes nothing. -/
theorem declareMathNamespace_declareMathNamespace (document : Text) :
    declareMathNamespace (declareMathNamespace document) = declareMathNamespace document := by
  by_cases htag : ∃ before attributes rest, Tagged document before attributes rest
  · obtain ⟨before, attributes, rest, h⟩ := htag
    obtain ⟨attributes', h', hdeclares, -⟩ := h.declare
    exact declareMathNamespace_of_declares h' hdeclares
  · simp only [not_exists] at htag
    rw [declareMathNamespace_of_not_tagged htag, declareMathNamespace_of_not_tagged htag]

/-! ### A tag in front of the runs -/

/-- The document tag, if there is one, ends before the first run. -/
def TagComesFirst (document : Text) : Prop :=
  ∀ before attributes rest, Text.breakAt? documentTag? document = some (before, attributes, rest) →
    ¬ ("<w:r" : Text) <:+: before ++ (("<w:document" : Text) ++ attributes ++ (">" : Text))

theorem tagComesFirst_of_breakAt? (before attributes rest : Text)
    (h : Text.breakAt? documentTag? document = some (before, attributes, rest))
    (hrun : ¬ ("<w:r" : Text) <:+: before ++ (("<w:document" : Text) ++ attributes ++ (">" : Text))) :
    TagComesFirst document := by
  intro before' attributes' rest' h'
  rw [h] at h'
  cases h'
  exact hrun

theorem TagComesFirst.not_infix (h : TagComesFirst document) (htag : Tagged document before attributes rest) :
    ¬ ("<w:r" : Text) <:+: before ++ (("<w:document" : Text) ++ attributes) := by
  intro hin
  refine h before attributes rest (tagged_iff.1 htag) (hin.trans ?_)
  exact ⟨[], (">" : Text), by simp⟩

/-- What is not in the tag is not in the tag with the declaration, unless it holds a character of the declaration. -/
theorem infix_of_infix_add {t tag : Text} (hspace : CodePoint.ofChar ' ' ∉ t) {c : CodePoint} (hc : c ∈ t)
    (hdecl : c ∉ mathDeclaration) (h : t <:+: tag ++ mathDeclaration) : t <:+: tag := by
  obtain ⟨r, hr⟩ := mathDeclaration_eq_cons
  rw [hr] at h hdecl
  exact ((infix_append_cons_iff hspace).1 h).resolve_right
    fun hin => hdecl (List.mem_cons_of_mem _ (hin.subset hc))

/-- Declaring the namespace changes nothing, or adds the declaration to the document tag. -/
theorem declareMathNamespace_cases (h : TagComesFirst document) :
    declareMathNamespace document = document ∨ ∃ tag rest, document = tag ++ CodePoint.ofChar '>' :: rest ∧
      ¬ ("<w:r" : Text) <:+: tag ∧
      declareMathNamespace document = (tag ++ mathDeclaration) ++ CodePoint.ofChar '>' :: rest := by
  by_cases htag : ∃ before attributes rest, Tagged document before attributes rest
  · obtain ⟨before, attributes, rest, htag⟩ := htag
    by_cases hdeclares : DeclaresMath attributes
    · exact .inl (declareMathNamespace_of_declares htag hdeclares)
    · refine .inr ⟨_, rest, htag.eq, h.not_infix htag, ?_⟩
      rw [declareMathNamespace_of_not_declares htag hdeclares]
      simp only [List.append_assoc]
  · simp only [not_exists] at htag
    exact .inl (declareMathNamespace_of_not_tagged htag)

end EquationExport.Splice
