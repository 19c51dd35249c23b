import EquationExport.Proofs.Omml.Complete
import EquationExport.Proofs.Omml.Spliceable
import EquationExport.Proofs.Text.Canonical

/-!
# Repair done twice

A repaired fragment is complete and its texts are clean, and nothing is lost of it when it is written and read again,
if text stands in elements without children alone. So to repair it once more does nothing, if the first time has left
nothing undone.
-/

namespace EquationExport

/-! ### Clean texts -/

namespace CodePoint

/-- The code point is left as it is when a text is cleaned. -/
def isClean (c : CodePoint) : Bool := !(c.isZeroWidth || c.isSurrogate || c.isControl || c.isTypographicSpace)

end CodePoint

namespace Text

theorem normalized_of_clean {s : Text} (h : ∀ c ∈ s, c.isClean = true) : s.sanitize.plainSpaces = s := by
  have hall : ∀ c ∈ s, c.isZeroWidth = false ∧ c.isSurrogate = false ∧ c.isControl = false ∧ c.isTypographicSpace = false := by
    intro c hc
    simpa [CodePoint.isClean, and_assoc] using h c hc
  rw [sanitize_of_forall fun c hc => ⟨(hall c hc).1, (hall c hc).2.1, (hall c hc).2.2.1⟩]
  exact plainSpaces_of_forall fun c hc => (hall c hc).2.2.2

theorem isClean_of_mem_normalized {s : Text} (hs : s.hasSurrogate = false) {c : CodePoint} (hc : c ∈ s.sanitize.plainSpaces) :
    c.isClean = true := by
  rw [sanitize, stripZeroWidth, stripUnpairedSurrogates_of_no_surrogate (hasSurrogate_filter _ hs)] at hc
  obtain ⟨d, hd, rfl⟩ := List.mem_map.1 hc
  obtain ⟨hd, hcontrol⟩ := List.mem_filter.1 hd
  obtain ⟨hd, hwidth⟩ := List.mem_filter.1 hd
  have hsurrogate := hasSurrogate_eq_false_iff.1 hs d hd
  split
  · decide
  · next hspace =>
    rw [Bool.not_eq_true'] at hcontrol hwidth
    simp [CodePoint.isClean, hwidth, hsurrogate, hcontrol, Bool.eq_false_iff.2 hspace]

end Text

namespace Omml

open Xml Xml.Node Repair

/-! ### Fragments whose texts are clean -/

/-- The node is left as it is when texts are cleaned. -/
def IsNormal (node : Node) : Prop := normalizeTextElement node = node

variable {node : Node} {l : List Node} {f g : Fragment} {omml s : Text}

/-- The tag of a text element with this text: white space that would be lost is declared to count. -/
def spacedTag (tag : Tag) (text : Text) : Tag :=
  if text != text.trim || text.contains "  " then tag.setAttribute preserveSpace.name preserveSpace.value else tag

theorem spacedTag_spacedTag (tag : Tag) (text : Text) : spacedTag (spacedTag tag text) text = spacedTag tag text := by
  unfold spacedTag
  split
  · exact Tag.setAttribute_setAttribute ..
  · rfl

theorem normalizeTextElement_of_text {tag : Tag} {text : Option Text} {tail : Text}
    (ht : (element tag text l tail).isNamed "t" = true) :
    normalizeTextElement (element tag text l tail) =
      element (spacedTag tag (text.getD []).sanitize.plainSpaces) (some (text.getD []).sanitize.plainSpaces) l tail := by
  rw [normalizeTextElement, if_pos ht]
  rfl

/-- A text that has been cleaned is clean. -/
theorem isNormal_normalizeTextElement (h : ∀ c ∈ node.text?.getD [], c.isXml = true) :
    IsNormal (normalizeTextElement node) := by
  cases node with
  | element tag text children tail =>
    have hsurrogate : Text.hasSurrogate (text.getD []) = false :=
      Text.hasSurrogate_eq_false_iff.2 fun c hc => isSurrogate_of_isXml (h c hc)
    have htwice : (text.getD []).sanitize.plainSpaces.sanitize.plainSpaces = (text.getD []).sanitize.plainSpaces :=
      Text.normalized_of_clean fun c hc => Text.isClean_of_mem_normalized hsurrogate hc
    cases ht : (element tag text children tail).isNamed "t" with
    | true =>
      have ht' : (normalizeTextElement (element tag text children tail)).isNamed "t" = true := by
        rw [Node.isNamed, name?_normalizeTextElement]
        exact ht
      rw [normalizeTextElement_of_text ht] at ht' ⊢
      rw [IsNormal, normalizeTextElement_of_text ht', Option.getD_some, htwice, spacedTag_spacedTag]
    | false =>
      rw [normalizeTextElement_eq_self ht]
      exact normalizeTextElement_eq_self ht
  | comment | instruction => rfl

/-- The texts of a repaired fragment are clean, if nothing but legal characters stood in equation markup. -/
theorem isNormal_repair_of_lasting {P : Node → Prop} (hP : Lasting (fun c => c.isXml = true) P)
    (hfraction : ∀ name ∈ fractionNames, P (mathElement name [])) (hf : Everywhere P (stripForeign f).children) :
    Everywhere IsNormal (f.repair []).children := by
  have hnormal : ∀ l : List Node, Everywhere P l →
      Everywhere IsNormal (rebuildAll (fun node => [normalizeTextElement node]) l) := by
    intro l
    induction l using forest_induction with
    | nil => exact fun _ => everywhere_nil
    | element tag text children tail rest ihc ihr =>
      intro h
      obtain ⟨hnode, hrest⟩ := everywhere_cons.1 h
      obtain ⟨hroot, hbelow⟩ := everywhere_singleton.1 hnode
      rw [rebuildAll, Node.rebuild, List.singleton_append]
      refine everywhere_cons.2 ⟨everywhere_singleton.2 ⟨isNormal_normalizeTextElement ?_, ?_⟩, ihr hrest⟩
      · exact hP.text _ (hP.isLocal _ _ _ _ _ hroot)
      · rw [children_normalizeTextElement]
        exact ihc hbelow
    | comment content tail rest ih | instruction target content tail rest ih =>
      intro h
      obtain ⟨hnode, hrest⟩ := everywhere_cons.1 h
      exact everywhere_cons.2 ⟨everywhere_singleton.2 ⟨rfl, everywhere_nil⟩, ih hrest⟩
  have happly : ∀ rules : List RepairRule,
      Everywhere IsNormal (f.applyRules (.stripForeign :: rules ++ [.normalizeTexts])).children := by
    intro rules
    rw [Fragment.applyRules, List.foldl_append]
    exact hnormal _ (hP.foldl rules (fun _ => hfraction) _ hf)
  have hrules : RepairRule.all.filter (fun rule => !([] : List Text).contains rule.name) =
      .stripForeign :: (RepairRule.all.drop 1).dropLast ++ [.normalizeTexts] := rfl
  rw [Fragment.repair, hrules]
  split
  · exact happly ((RepairRule.all.drop 1).dropLast.filter (· != .promoteDelimiters))
  · exact happly _

theorem IsNormal.undeclared (h : IsNormal node) : IsNormal (Omml.undeclared node) := by
  cases node with
  | element tag text children tail =>
    have hset : ∀ tag : Tag, (undeclaredTag tag).setAttribute preserveSpace.name preserveSpace.value =
        undeclaredTag (tag.setAttribute preserveSpace.name preserveSpace.value) := by
      intro tag
      unfold Tag.setAttribute undeclaredTag
      dsimp only
      split <;> rfl
    have hspaced : ∀ t : Text, spacedTag (undeclaredTag tag) t = undeclaredTag (spacedTag tag t) := by
      intro t
      rw [spacedTag, spacedTag, hset, apply_ite undeclaredTag]
    cases ht : (element tag text children tail).isNamed "t" with
    | true =>
      have ht' : (element (undeclaredTag tag) text (undeclareds children) tail).isNamed "t" = true := ht
      rw [IsNormal, normalizeTextElement_of_text ht] at h
      obtain ⟨htag, htext, -, -⟩ := Node.element.inj h
      rw [Omml.undeclared, IsNormal, normalizeTextElement_of_text ht', hspaced, htag, htext]
    | false =>
      exact normalizeTextElement_eq_self
        (show (Omml.undeclared (element tag text children tail)).isNamed "t" = false from ht)
  | comment | instruction => rfl

end Omml

end EquationExport
