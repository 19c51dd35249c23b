import EquationExport.Proofs.Omml.Idempotent

/-!
# The normal form of a repaired fragment

After all repairs every node of a fragment is an element of equation markup, scripts and n-ary operators have the
slots that the schema asks for, no group of properties holds one that is undefined, and the texts of text elements
are clean. Each part comes about by a repair of its own. Foreign elements go first and texts are cleaned last; what
lasts in between is that elements are of equation markup and hold legal characters.
-/

namespace EquationExport.Omml

open Xml Xml.Node Repair

/-- The element has a slot of each of the names. -/
def HasSlots (node : Node) (names : List Text) : Prop := ∀ name ∈ names, (node.slot? name).isSome = true

/-- The form that every node of a repaired fragment has. -/
structure IsRepaired (node : Node) : Prop where
  /-- The node is an element of equation markup. -/
  math : node.isMath = true
  subscript : node.isNamed "sSub" = true → HasSlots node ["e", "sub"]
  superscript : node.isNamed "sSup" = true → HasSlots node ["e", "sup"]
  subSuperscript : node.isNamed "sSubSup" = true → HasSlots node ["e", "sub", "sup"]
  operator : node.isNamed "nary" = true → HasSlots node ["e"]
  /-- No property in a group is the word `undefined`. -/
  defined : node.tag?.any isPropertyGroup = true → ∀ property ∈ node.children, isUndefined property = false
  /-- The text of a text element holds no invisible characters, no controls and no spaces of a width of their own. -/
  text : node.isNamed "t" = true →
    ∀ c ∈ node.text?.getD [], c.isZeroWidth = false ∧ c.isControl = false ∧ c.isTypographicSpace = false
  /-- White space at the ends of the text, and two spaces in a row, are declared to count. -/
  space : node.isNamed "t" = true → node.text?.getD [] ≠ (node.text?.getD []).trim ∨ "  " <:+: node.text?.getD [] →
    node.attribute? preserveSpace.name = some preserveSpace.value

variable {node : Node} {omml : Text} {f : Fragment}

/-! ### Slots -/

theorem HasScriptSlots.hasSlots (h : HasScriptSlots node) {name : Text} (hname : name ∈ scriptNames)
    (hnamed : node.isNamed name = true) : HasSlots node (scriptSlots node) :=
  isWholeScript_iff.1 (h (List.any_eq_true.2 ⟨name, hname, hnamed⟩))

theorem scriptSlots_of_isNamed (hnamed : node.isNamed "sSubSup" = true) :
    scriptSlots node = (["e", "sub", "sup"] : List Text) := by
  have hsubscript : node.isNamed "sSub" = false := isNamed_of_isNamed hnamed (by decide)
  have hsuperscript : node.isNamed "sSup" = false := isNamed_of_isNamed hnamed (by decide)
  rw [scriptSlots, requiredSlots, hsubscript, hsuperscript]
  rfl

/-! ### Texts -/

theorem isClean_iff {c : CodePoint} : c.isClean = true ↔
    c.isZeroWidth = false ∧ c.isSurrogate = false ∧ c.isControl = false ∧ c.isTypographicSpace = false := by
  simp [CodePoint.isClean, and_assoc]

/-- A text element that cleaning leaves as it is has a clean text, and its tag says that white space counts. -/
theorem IsNormal.text (h : IsNormal node) (ht : node.isNamed "t" = true) (hlegal : isLegal (node.text?.getD []) = true) :
    (∀ c ∈ node.text?.getD [], c.isClean = true) ∧
      (node.text?.getD [] ≠ (node.text?.getD []).trim ∨ "  " <:+: node.text?.getD [] →
        node.attribute? preserveSpace.name = some preserveSpace.value) := by
  cases node with
  | element tag text children tail =>
    have hsurrogate : Text.hasSurrogate (text.getD []) = false :=
      Text.hasSurrogate_eq_false_iff.2 fun c hc => isSurrogate_of_isXml (isLegal_iff.1 hlegal c hc)
    rw [IsNormal, normalizeTextElement_of_text ht] at h
    obtain ⟨htag, htext, -, -⟩ := Node.element.inj h
    have hsame : (text.getD []).sanitize.plainSpaces = text.getD [] := congrArg (Option.getD · []) htext
    rw [hsame] at htag
    refine ⟨fun c hc => Text.isClean_of_mem_normalized hsurrogate (hsame.symm ▸ hc), fun hspace => ?_⟩
    have hset : spacedTag tag (text.getD []) = tag.setAttribute preserveSpace.name preserveSpace.value := by
      refine if_pos ?_
      rw [Bool.or_eq_true, bne_iff_ne, Text.contains_iff]
      exact hspace
    rw [Node.attribute?, Node.tag?, Option.bind_some, ← htag, hset, Tag.attribute?_setAttribute]
  | comment | instruction => cases ht

/-! ### Elements of equation markup with legal texts -/

/-- An element of equation markup with a legal text. -/
structure IsLegalMath (node : Node) : Prop where
  math : node.isMath = true
  text : isLegal (node.text?.getD []) = true

theorem isLegalMath_mathElement (name : Text) : IsLegalMath (mathElement name []) :=
  ⟨by simp [Node.isMath, Node.name?, Node.tag?, mathElement, mathName], rfl⟩

theorem lasting_isLegalMath : Lasting (fun c => c.isXml = true) IsLegalMath where
  isLocal := fun _ _ _ _ _ h => ⟨h.math, h.text⟩
  own := by decide +kernel
  built := fun name _ => isLegalMath_mathElement name
  textElement := fun text htext =>
    ⟨by simp [Node.isMath, Node.name?, Node.tag?, textElement, mathName], isLegal_iff.2 htext⟩
  setValue := fun value node _ h => by
    refine ⟨?_, ?_⟩
    · rw [Node.isMath, name?_setAttribute]
      exact h.math
    · cases node <;> exact h.text
  normalized := fun node h => by
    refine ⟨?_, ?_⟩
    · rw [Node.isMath, name?_normalizeTextElement]
      exact h.math
    · cases node with
      | element tag text l tail =>
        rw [normalizeTextElement]
        split
        · exact isLegal_normalized h.text
        · exact h.text
      | comment | instruction => exact h.text
  text := fun _ h => isLegal_iff.1 h.text

theorem isLegalMath_stripForeign (hparse : Fragment.parse? omml = some f) :
    Everywhere IsLegalMath (stripForeign f).children := by
  obtain ⟨⟨text, children⟩, hread, rfl⟩ := Option.map_eq_some_iff.1 hparse
  have hlocal : Local fun n : Node => isLegal (n.text?.getD []) = true := fun _ _ _ _ _ h => h
  have hlegal : LegalTexts (stripForeign ⟨text, children⟩).children :=
    hlocal.pruneAll _ _ _ (legalTexts_of_readContent? hread)
  exact fun n hn => ⟨everywhere_isMath_stripForeign children none n hn, hlegal n hn⟩

/-! ### The form -/

/-- The repair of every fragment that can be read gives a fragment of which every node is in normal form. -/
theorem isRepaired_repair (hparse : Fragment.parse? omml = some f) :
    repairOmml omml [] = some (f.repair []).write ∧ ∀ node ∈ (f.repair []).nodes, IsRepaired node := by
  have hstripped := isLegalMath_stripForeign hparse
  have hfraction : ∀ name ∈ fractionNames, IsLegalMath (mathElement name []) := fun name _ => isLegalMath_mathElement name
  have hlegal : Everywhere IsLegalMath (f.repair []).children := lasting_isLegalMath.repair hfraction rfl hstripped
  have hnormal := isNormal_repair_of_lasting lasting_isLegalMath hfraction hstripped
  refine ⟨by rw [repairOmml, hparse, Option.map_some], fun node hnode => ?_⟩
  obtain ⟨hbody, hscript, hstyles⟩ := isComplete_iff.1 (f.isComplete_repair node hnode)
  have htext := fun ht => (hnormal node hnode).text ht (hlegal node hnode).text
  exact {
    math := (hlegal node hnode).math
    subscript := fun hnamed => by
      have hslots := hscript.hasSlots (by decide) hnamed
      rwa [scriptSlots, requiredSlots, if_pos hnamed] at hslots
    superscript := fun hnamed => by
      have hslots := hscript.hasSlots (by decide) hnamed
      have hother : node.isNamed "sSub" = false := isNamed_of_isNamed hnamed (by decide)
      rwa [scriptSlots, requiredSlots, hother, if_pos hnamed] at hslots
    subSuperscript := fun hnamed => scriptSlots_of_isNamed hnamed ▸ hscript.hasSlots (by decide) hnamed
    operator := fun hnamed => List.forall_mem_singleton.2 (hbody hnamed)
    defined := fun hgroup property hproperty => by
      rw [HoldsDefined, holdsUndefined, hgroup, Bool.true_and, List.any_eq_false] at hstyles
      exact Bool.eq_false_iff.2 (hstyles property hproperty)
    text := fun ht c hc => by
      obtain ⟨hwidth, -, hcontrol, hspace⟩ := isClean_iff.1 ((htext ht).1 c hc)
      exact ⟨hwidth, hcontrol, hspace⟩
    space := fun ht => (htext ht).2 }

/-- A power whose base holds scripts without a subscript, with an undefined style and spaces of all kinds, and a sum without a body. -/
def tangledPower : Text :=
  "<m:sSup><m:e><m:sSubSup><m:e><m:r><m:rPr><m:sty m:val=\"undefined\"/></m:rPr><m:t>a&#160;&#8203; b </m:t></m:r></m:e>" ++
    "<m:sup/></m:sSubSup></m:e><m:sup><m:nary><m:naryPr><m:chr m:val=\"∑\"/></m:naryPr></m:nary><w:p/></m:sup></m:sSup>"

theorem isRepaired_repair_tangledPower : ∃ f : Fragment, Fragment.parse? tangledPower = some f ∧
    repairOmml tangledPower [] = some (f.repair []).write ∧ ∀ node ∈ (f.repair []).nodes, IsRepaired node := by
  have hread : (Fragment.parse? tangledPower).isSome = true := by decide +kernel
  obtain ⟨f, hparse⟩ := Option.isSome_iff_exists.1 hread
  exact ⟨f, hparse, isRepaired_repair hparse⟩

end EquationExport.Omml
