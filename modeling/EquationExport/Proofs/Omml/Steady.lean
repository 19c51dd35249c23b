import EquationExport.Proofs.Omml.Fraction
import EquationExport.Proofs.Omml.Undeclared
import EquationExport.Proofs.Text.Legible

/-!
# Elements whose names mean the same everywhere

The qualifiers that a fragment may use without declaring them are known wherever it goes. An element of equation
markup is steady if all names on it mean under these qualifiers what they mean where it stands. Repairs build
steady elements and leave steady elements steady.
-/

namespace EquationExport.Omml

open Xml Xml.Node Repair

/-! ### Steady elements -/

/-- All names on the tag mean in the scope what they mean on the tag. -/
def namesKnown (scope : Scope) (tag : Tag) : Bool :=
  elementName? scope tag.name.parts == some tag.name &&
    tag.attributes.all fun a => attributeName? scope a.name.parts == some a.name

/-- A tag of equation markup whose names are clear, and mean the same under the known qualifiers. -/
structure IsSteadyTag (tag : Tag) : Prop extends tag.IsWellFormed where
  space : tag.name.space = some mathNamespace
  known : namesKnown knownQualifiers tag = true
  clear : hasClearNames tag = true

/-- An element with such a tag, and with legal characters in it and behind it. -/
structure IsSteady (node : Node) : Prop where
  text : isLegal (node.text?.getD []) = true
  tail : isLegal node.tail = true
  tag : ∃ tag, node.tag? = some tag ∧ IsSteadyTag tag

variable {tag : Tag} {node : Node} {name : Name} {value : Text}

theorem isSteady_element {text : Option Text} {l : List Node} {tail : Text} :
    IsSteady (element tag text l tail) ↔ isLegal (text.getD []) = true ∧ isLegal tail = true ∧ IsSteadyTag tag := by
  constructor
  · rintro ⟨htext, htail, _, htag, hsteady⟩
    obtain rfl := Option.some.inj htag
    exact ⟨htext, htail, hsteady⟩
  · rintro ⟨htext, htail, hsteady⟩
    exact ⟨htext, htail, tag, rfl, hsteady⟩

theorem IsSteady.isMath (h : IsSteady node) : node.isMath = true := by
  obtain ⟨tag, htag, hsteady⟩ := h.tag
  simp [Node.isMath, Node.name?, htag, hsteady.space]

/-- An attribute with this name can be set on a steady tag. -/
def isSteadyName (name : Name) : Bool :=
  isQualifiedName name.parts && (declared? name.parts).isNone && attributeName? knownQualifiers name.parts == some name &&
    isUnspaced name.written

/-- A steady tag stays so with an attribute set. -/
theorem IsSteadyTag.setAttribute (h : IsSteadyTag tag) (hname : isSteadyName name = true) (hvalue : isLegal value = true) :
    IsSteadyTag (tag.setAttribute name value) := by
  simp only [isSteadyName, Bool.and_eq_true, beq_iff_eq, Option.isNone_iff_eq_none] at hname
  obtain ⟨⟨⟨hqualified, hplain⟩, hknown⟩, hunspaced⟩ := hname
  have holdKnown := h.known
  have holdClear := h.clear
  simp only [namesKnown, hasClearNames, Bool.and_eq_true, List.all_eq_true, beq_iff_eq] at holdKnown holdClear
  have hsame := Tag.name_setAttribute tag name value
  have hdeclarations : (tag.setAttribute name value).declarations = tag.declarations := by
    unfold Tag.setAttribute
    split <;> rfl
  refine ⟨h.toIsWellFormed.setAttribute hqualified hplain hvalue, hsame ▸ h.space, ?_, ?_⟩
  · simp only [namesKnown, Bool.and_eq_true, List.all_eq_true, beq_iff_eq, hsame]
    refine ⟨holdKnown.1, fun a ha => ?_⟩
    rcases Tag.mem_setAttribute ha with ha | ⟨-, hnew | ⟨b, hb, hnew⟩⟩
    · exact holdKnown.2 a ha
    · rw [hnew, hknown]
    · rw [← hnew, holdKnown.2 b hb]
  · simp only [hasClearNames, Bool.and_eq_true, List.all_eq_true, hsame, hdeclarations]
    refine ⟨⟨holdClear.1.1, fun a ha => ?_⟩, holdClear.2⟩
    rcases Tag.mem_setAttribute ha with ha | ⟨-, hnew | ⟨b, hb, hnew⟩⟩
    · exact holdClear.1.2 a ha
    · rw [hnew, hunspaced]
    · rw [← hnew, holdClear.1.2 b hb]

/-- An element that the repairs build is steady, with or without the declaration that its white space counts. -/
theorem isSteadyTag_mathName {localPart : Text} (h : localPart ∈ ("t" : Text) :: (builtNames ++ fractionNames))
    {attributes : List Attribute} (hattributes : attributes ∈ [[], [preserveSpace]]) :
    IsSteadyTag ⟨mathName localPart, [], attributes⟩ := by
  have hname : ∀ localPart ∈ ("t" : Text) :: (builtNames ++ fractionNames),
      isQualifiedName (mathName localPart).parts = true ∧
        elementName? knownQualifiers (mathName localPart).parts = some (mathName localPart) ∧
        isUnspaced (mathName localPart).written = true := by decide +kernel
  have hattribute : ∀ attributes ∈ [[], [preserveSpace]], ∀ a ∈ attributes, a.isReadable = true ∧
      declared? a.name.parts = none ∧ attributeName? knownQualifiers a.name.parts = some a.name ∧
        isUnspaced a.name.written = true := by decide +kernel
  have hdistinct : ∀ attributes ∈ [[], [preserveSpace]],
      distinctBy (fun a : Attribute => (a.name.space, a.name.localPart)) attributes = true := by decide +kernel
  obtain ⟨hqualified, hknown, hunspaced⟩ := hname localPart h
  have hall := hattribute attributes hattributes
  refine ⟨⟨hqualified, List.all_eq_true.2 fun a ha => (hall a ha).1, fun a ha => (hall a ha).2.1,
    hdistinct attributes hattributes⟩, rfl, ?_, ?_⟩
  · simp only [namesKnown, Bool.and_eq_true, List.all_eq_true, beq_iff_eq]
    exact ⟨hknown, fun a ha => (hall a ha).2.2.1⟩
  · simp only [hasClearNames, Bool.and_eq_true, List.all_eq_true]
    exact ⟨⟨hunspaced, fun a ha => (hall a ha).2.2.2⟩, fun d hd => absurd hd List.not_mem_nil⟩

/-! ### Steady elements under repair -/

theorem isLegal_normalized {s : Text} (h : isLegal s = true) : isLegal s.sanitize.plainSpaces = true := by
  have hsurrogate : s.hasSurrogate = false :=
    Text.hasSurrogate_eq_false_iff.2 fun c hc => isSurrogate_of_isXml (isLegal_iff.1 h c hc)
  rw [Text.sanitize, Text.stripZeroWidth,
    Text.stripUnpairedSurrogates_of_no_surrogate (Text.hasSurrogate_filter _ hsurrogate), isLegal_iff]
  intro c hc
  obtain ⟨d, hd, rfl⟩ := List.mem_map.1 hc
  split
  · decide
  · exact isLegal_iff.1 h d (List.mem_filter.1 (List.mem_filter.1 hd).1).1

theorem isSteady_mathElement {localPart : Text} (h : localPart ∈ builtNames ++ fractionNames) :
    IsSteady (mathElement localPart []) :=
  isSteady_element.2 ⟨rfl, rfl, isSteadyTag_mathName (List.mem_cons_of_mem _ h) (by simp)⟩

/-- To be steady lasts under repair. -/
theorem lasting_isSteady : Lasting (fun c => c.isXml = true) IsSteady where
  isLocal := fun _ _ _ _ _ h => isSteady_element.2 (isSteady_element.1 h)
  own := by decide +kernel
  built := fun name hname => isSteady_mathElement (List.mem_append_left _ hname)
  textElement := fun text htext => by
    refine isSteady_element.2 ⟨isLegal_iff.2 htext, rfl, isSteadyTag_mathName List.mem_cons_self ?_⟩
    split <;> simp
  setValue := fun value node hvalue h => by
    cases node with
    | element tag text l tail =>
      obtain ⟨htext, htail, htag⟩ := isSteady_element.1 h
      exact isSteady_element.2 ⟨htext, htail, htag.setAttribute (by decide +kernel) (isLegal_iff.2 hvalue)⟩
    | comment | instruction => exact h
  normalized := fun node h => by
    cases node with
    | element tag text l tail =>
      simp only [normalizeTextElement]
      split
      · obtain ⟨htext, htail, htag⟩ := isSteady_element.1 h
        refine isSteady_element.2 ⟨isLegal_normalized htext, htail, ?_⟩
        split
        · exact htag.setAttribute (by decide +kernel) (by decide +kernel)
        · exact htag
      · exact h
    | comment | instruction => exact h
  text := fun node h => isLegal_iff.1 h.text

end EquationExport.Omml
