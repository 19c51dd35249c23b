import EquationExport.Proofs.Omml.Congruence
import EquationExport.Proofs.Omml.Lasting
import EquationExport.Proofs.Omml.Nary
import EquationExport.Proofs.Omml.Settled
import EquationExport.Proofs.Omml.Span
import Mathlib.Data.List.Forall2

/-!
# Properties that concern some names

A property may ask something of elements with certain names, and nothing of others. Then what is built of other elements
has it everywhere if the parts have it, and so has a construct in which a property is set. What a repair builds is such
a construct for most properties; for a property that asks something of the new elements, that is left to show.
-/

namespace EquationExport.Omml

open Xml Xml.Node Repair

variable {node : Node} {l : List Node}

/-- The property asks nothing of nodes without one of the names. -/
def Concerns (names : List Text) (Q : Node → Prop) : Prop := ∀ node : Node, node.isOneOf names = false → Q node

/-- The names of delimiters, of their properties and of their slot. -/
def delimiterNames : List Text := Text.ofStrings ["d", "dPr", "begChr", "endChr", "e"]

namespace Concerns

variable {names : List Text} {Q : Node → Prop} {name : Text} (h : Concerns names Q)
include h

theorem named (hnamed : node.isNamed name = true) (hname : name ∉ names) : Q node := h node (isOneOf_of_isNamed hnamed hname)

theorem container (hnames : ∀ name ∈ containerNames, name ∉ names) (hnode : node.isContainer = true) : Q node := by
  obtain ⟨name, hname, hnamed⟩ := List.any_eq_true.1 hnode
  exact h.named hnamed (hnames name hname)

theorem construct (hname : name ∉ names) (hl : Everywhere Q l) : Everywhere Q [mathElement name l] :=
  everywhere_singleton.2 ⟨h.named (isNamed_mathElement_self ..) hname, hl⟩

theorem value (hname : name ∉ names) (value : Text) : Everywhere Q [valueElement name value] :=
  everywhere_singleton.2 ⟨h.named (by rw [isNamed_valueElement, beq_self_eq_true]) hname, everywhere_nil⟩

/-- A property that is set puts a group of properties in front of the children, or it leaves them their names. -/
theorem exists_children_setProperty {group : Text} (value : Text) (hgroup : group ∉ names) (hname : name ∉ names) (tag : Tag)
    (text : Option Text) (tail : Text) (hl : Everywhere Q l) :
    ∃ l', (element tag text l tail).setProperty group name value = element tag text l' tail ∧ Everywhere Q l' ∧
      (l ⊆ l' ∨ List.Forall₂ (fun old new => new.name? = old.name?) l l') := by
  have hrefl : ∀ l : List Node, List.Forall₂ (fun old new => new.name? = old.name?) l l := fun l =>
    List.forall₂_same.2 fun _ _ => rfl
  rcases setProperty_cases group name value tag text l tail with
    ⟨-, heq⟩ | ⟨front, gtag, gtext, old, gtail, rest, new, rfl, hnamed, -, hset, heq⟩
  · exact ⟨_, heq, everywhere_cons.2 ⟨h.construct hgroup (h.value hname value), hl⟩, .inl (List.subset_cons_self ..)⟩
  · obtain ⟨hfront, hrest⟩ := everywhere_append.1 hl
    obtain ⟨hg, hrest⟩ := everywhere_cons.1 hrest
    have hold : Everywhere Q old := (everywhere_singleton.1 hg).2
    have hnew : Everywhere Q new := by
      rcases hset with ⟨before, property, behind, rfl, hproperty, -, rfl⟩ | ⟨before, behind, rfl, -, rfl⟩
      · obtain ⟨hbefore, hbehind⟩ := everywhere_append.1 hold
        obtain ⟨hp, hbehind⟩ := everywhere_cons.1 hbehind
        refine everywhere_append.2 ⟨hbefore, everywhere_cons.2 ⟨everywhere_singleton.2 ⟨?_, ?_⟩, hbehind⟩⟩
        · exact h.named (by rw [isNamed_setAttribute, hproperty]) hname
        · rw [children_setAttribute]
          exact (everywhere_singleton.1 hp).2
      · obtain ⟨hbefore, hbehind⟩ := everywhere_append.1 hold
        exact everywhere_append.2 ⟨hbefore, everywhere_cons.2 ⟨h.value hname value, hbehind⟩⟩
    refine ⟨_, heq, everywhere_append.2 ⟨hfront, everywhere_cons.2 ⟨everywhere_singleton.2 ⟨?_, hnew⟩, hrest⟩⟩, .inr ?_⟩
    · have hother : (element gtag gtext old gtail).isOneOf names = false := isOneOf_of_isNamed hnamed hgroup
      exact h (element gtag gtext new gtail) hother
    · exact List.rel_append (hrefl front) (.cons rfl (hrefl rest))

/-- The construct has another name, and so have its group of properties and the property that is set. -/
theorem setProperty {group : Text} (value : Text) (hgroup : group ∉ names) (hname : name ∉ names)
    (hnode : node.isOneOf names = false) (hin : Everywhere Q [node]) : Everywhere Q [node.setProperty group name value] := by
  cases node with
  | element tag text l tail =>
    have hl : Everywhere Q l := (everywhere_singleton.1 hin).2
    obtain ⟨l', heq, hl', -⟩ := h.exists_children_setProperty value hgroup hname tag text tail hl
    rw [heq]
    exact everywhere_singleton.2 ⟨h _ hnode, hl'⟩
  | comment | instruction => exact hin

/-- The slot of delimiters has the property, and so have the delimiters. -/
theorem delimiter (hnames : ∀ name ∈ Text.ofStrings ["d", "dPr", "begChr", "endChr"], name ∉ names)
    (opening closing : Text) {content : List Node} (hslot : Everywhere Q [mathElement "e" content]) :
    Everywhere Q [delimiter opening closing content] := by
  rw [delimiter_eq]
  refine h.construct (hnames _ (by decide)) (everywhere_cons.2 ⟨?_, hslot⟩)
  refine h.construct (hnames _ (by decide)) (everywhere_cons.2 ⟨?_, h.value (hnames _ (by decide)) closing⟩)
  exact h.value (hnames _ (by decide)) opening

/-- What stands between delimiters has the property, and so have the delimiters and their slot. -/
theorem enclosed (hnames : ∀ name ∈ delimiterNames, name ∉ names) (opening closing : Text) (hl : Everywhere Q l) :
    Everywhere Q [Omml.delimiter opening closing l] := by
  have hown : ∀ name ∈ Text.ofStrings ["d", "dPr", "begChr", "endChr"], name ∈ delimiterNames := by decide
  exact h.delimiter (fun name hname => hnames name (hown name hname)) opening closing (h.construct (hnames _ (by decide)) hl)

/-- An operator has the property if it has it with its sign and its slots alone. -/
theorem nary_of_signed (hnames : ∀ name ∈ Text.ofStrings ["nary", "naryPr", "limLoc", "subHide", "supHide"], name ∉ names)
    {operator : Text} (location : Option Text) {sub sup base : List Node} (hin : Everywhere Q [signedNary operator sub sup base]) :
    Everywhere Q [Omml.nary operator sub sup base location] := by
  have hset : ∀ {node : Node} {name : Text} (b : Bool) (value : Text), name ∉ names → node.isNamed "nary" = true →
      Everywhere Q [node] → Everywhere Q [setPropertyIf b "naryPr" name value node] := by
    intro node name b value hname hnary hin
    cases b with
    | false => exact hin
    | true => exact h.setProperty value (hnames _ (by decide)) hname (isOneOf_of_isNamed hnary (hnames _ (by decide))) hin
  have hsigned : (signedNary operator sub sup base).isNamed "nary" = true := by
    rw [signedNary, isNamed_mathElement_self]
  rw [Omml.nary, setProperty_chr]
  refine hset _ _ (hnames _ (by decide)) ?_ (hset _ _ (hnames _ (by decide)) ?_
    (hset _ _ (hnames _ (by decide)) hsigned hin))
  · rw [isNamed_setPropertyIf, isNamed_setPropertyIf, hsigned]
  · rw [isNamed_setPropertyIf, hsigned]

/-- The slots of an n-ary operator have the property, and so has the operator. -/
theorem nary (hnames : ∀ name ∈ Text.ofStrings ["nary", "naryPr", "limLoc", "subHide", "supHide", "chr"], name ∉ names)
    (operator : Text) (location : Option Text) {sub sup base : List Node}
    (hslots : Everywhere Q [mathElement "sub" sub, mathElement "sup" sup, mathElement "e" base]) :
    Everywhere Q [Omml.nary operator sub sup base location] := by
  have hlayout : ∀ name ∈ Text.ofStrings ["nary", "naryPr", "limLoc", "subHide", "supHide"],
      name ∈ Text.ofStrings ["nary", "naryPr", "limLoc", "subHide", "supHide", "chr"] := by decide
  refine h.nary_of_signed (fun name hname => hnames name (hlayout name hname)) location ?_
  refine h.construct (hnames _ (by decide)) (everywhere_cons.2 ⟨?_, hslots⟩)
  exact h.construct (hnames _ (by decide)) (h.value (hnames _ (by decide)) operator)

/-- A fraction has the property if its parts have it. -/
theorem fraction (hnames : ∀ name ∈ fractionNames, name ∉ names) {num den : List Node} (hnum : Everywhere Q num)
    (hden : Everywhere Q den) : Everywhere Q [Omml.fraction num den] :=
  h.construct (hnames _ (by decide)) (everywhere_cons.2
    ⟨h.construct (hnames _ (by decide)) hnum, h.construct (hnames _ (by decide)) hden⟩)

theorem run (hnames : ∀ name ∈ Text.ofStrings ["r", "t"], name ∉ names) (text : Text) {properties : Option Node}
    (hproperties : Everywhere Q properties.toList) : Everywhere Q [Omml.run text properties] := by
  rw [run_eq]
  refine h.construct (hnames _ (by decide)) (everywhere_append.2 ⟨hproperties, ?_⟩)
  exact everywhere_singleton.2 ⟨h.named (show (textElement text).isNamed "t" = true from rfl) (hnames _ (by decide)),
    everywhere_nil⟩

/-! ### What repairs build -/

/-- The slots of scripts. -/
theorem scriptedBar (hnames : ∀ name ∈ Text.ofStrings ["sSub", "sSubSup", "e", "sub", "sup"], name ∉ names)
    {properties : Option Node} (hrun : ∀ text, Everywhere Q [Omml.run text properties]) (digits : Text) :
    Everywhere Q [scriptedBar digits properties] := by
  have hslot : ∀ name ∈ Text.ofStrings ["sSub", "sSubSup", "e", "sub", "sup"], ∀ text,
      Everywhere Q [mathElement name [Omml.run text properties]] :=
    fun name hname text => h.construct (hnames name hname) (hrun text)
  unfold Repair.scriptedBar
  split
  · exact h.construct (hnames _ (by decide)) (everywhere_cons.2 ⟨hslot _ (by decide) _,
      everywhere_cons.2 ⟨hslot _ (by decide) _, hslot _ (by decide) _⟩⟩)
  · exact h.construct (hnames _ (by decide)) (everywhere_cons.2 ⟨hslot _ (by decide) _, hslot _ (by decide) _⟩)

theorem ensureBody (hnames : ∀ name ∈ Text.ofStrings ["nary", "e"], name ∉ names) (hnode : Everywhere Q [node]) :
    Everywhere Q [ensureBody node] := by
  unfold Repair.ensureBody
  split
  · next hlacks =>
    have hnary : node.isNamed "nary" = true := (Bool.and_eq_true_iff.1 hlacks).1
    cases node with
    | element tag text children tail =>
      have hin : Everywhere Q children := (everywhere_singleton.1 hnode).2
      refine everywhere_singleton.2 ⟨h.named (show (element tag text _ tail).isNamed "nary" = true from hnary)
        (hnames _ (by decide)), everywhere_append.2 ⟨hin, h.construct (hnames _ (by decide)) everywhere_nil⟩⟩
    | comment | instruction => cases hnary
  · exact hnode

theorem appendToBody (hnames : ∀ name ∈ Text.ofStrings ["nary", "e"], name ∉ names) {new : Node}
    (hnary : node.isNamed "nary" = true) (hnode : Everywhere Q [node]) (hnew : Everywhere Q [new]) :
    Everywhere Q [appendToBody node new] := by
  cases node with
  | element tag text children tail =>
    have hin : Everywhere Q children := (everywhere_singleton.1 hnode).2
    refine everywhere_singleton.2 ⟨h.named (show (element tag text _ tail).isNamed "nary" = true from hnary)
      (hnames _ (by decide)), everywhere_modifyFirst (fun body hbody hbelow => ?_) hin⟩
    cases body with
    | element btag btext bchildren btail =>
      refine everywhere_singleton.2 ⟨h.named (show (element btag btext _ btail).isNamed "e" = true from hbody)
        (hnames _ (by decide)), everywhere_append.2 ⟨(everywhere_singleton.1 hbelow).2, hnew⟩⟩
    | comment | instruction => cases hbody
  | comment | instruction => cases hnary

theorem placeLimits (hnames : ∀ name ∈ Text.ofStrings ["nary", "naryPr", "limLoc"], name ∉ names)
    (hnode : Everywhere Q [node]) : Everywhere Q [placeLimits node] := by
  unfold Repair.placeLimits
  split
  · next hfamily =>
    have hnary : node.isNamed "nary" = true := (Bool.and_eq_true_iff.1 hfamily).1
    exact h.setProperty _ (hnames _ (by decide)) (hnames _ (by decide))
      (isOneOf_of_isNamed hnary (hnames _ (by decide))) hnode
  · exact hnode

theorem normalizeTextElement (hname : ("t" : Text) ∉ names) (hnode : Everywhere Q [node]) :
    Everywhere Q [normalizeTextElement node] := by
  have hsame : SameName node (Repair.normalizeTextElement node) := name?_normalizeTextElement node
  cases node with
  | element tag text children tail =>
    rw [Repair.normalizeTextElement] at hsame ⊢
    split
    · next htext =>
      rw [if_pos htext] at hsame
      exact everywhere_singleton.2 ⟨h.named (by rwa [hsame.isNamed]) hname, (everywhere_singleton.1 hnode).2⟩
    · exact hnode
  | comment | instruction => exact hnode

/-- Bases between delimiters, in scripts that have the property themselves. -/
theorem wrapBasesAmong (hnames : ∀ name ∈ delimiterNames, name ∉ names) (hroot : ∀ n, Q n → Q (wrapBases n))
    (nodes : List Node) (hnodes : Everywhere Q nodes) : Everywhere Q (wrapBasesAmong nodes) := by
  induction nodes using forest_induction with
  | nil => exact hnodes
  | element tag text children tail rest ihc ihr =>
    obtain ⟨hnode, hrest⟩ := everywhere_cons.1 hnodes
    obtain ⟨hself, hbelow⟩ := everywhere_singleton.1 hnode
    refine everywhere_cons.2 ⟨everywhere_singleton.2 ⟨hroot _ hself, ?_⟩, ihr hrest⟩
    simp only [wrapBases]
    split
    · refine everywhere_modifyFirst (fun base hbase hin => ?_) (ihc hbelow)
      cases base with
      | element btag btext bchildren btail =>
        have hslot : ∀ l, (element btag btext l btail).isNamed "e" = true := fun _ => hbase
        exact everywhere_singleton.2 ⟨h.named (hslot _) (hnames _ (by decide)),
          h.enclosed hnames _ _ (Lasting.interior (everywhere_singleton.1 hin).2)⟩
      | comment | instruction => cases hbase
    · exact ihc hbelow
  | comment content tail rest ih | instruction target content tail rest ih =>
    obtain ⟨hnode, hrest⟩ := everywhere_cons.1 hnodes
    exact everywhere_cons.2 ⟨hnode, ih hrest⟩

/-! ### What sweeps build -/

theorem builds_bracketSpan (hnames : ∀ name ∈ delimiterNames, name ∉ names) : Builds Q (bracketSpan 0) := by
  refine Lasting.builds_of_covers (fun seen span => covers_of_bracketSpan) ?_
  rintro old build objects ⟨opening, inner, last, -, -, -, rfl⟩ - hobjects
  exact h.enclosed hnames _ _ (Lasting.interior hobjects)

theorem builds_braceSpan (hnames : ∀ name ∈ delimiterNames, name ∉ names) : Builds Q (braceSpan 0) := by
  refine Lasting.builds_of_covers (fun seen span => covers_of_braceSpan) ?_
  rintro old build objects (⟨brace, matrix, last, -, -, -, rfl⟩ | ⟨brace, matrix, -, -, rfl⟩) - hobjects
  · exact h.enclosed hnames _ _ (Lasting.interior hobjects)
  · exact h.enclosed hnames _ _ (hobjects.sublist (List.drop_sublist ..))

theorem builds_promotionSpan (hnames : ∀ name ∈ delimiterNames, name ∉ names) : Builds Q (promotionSpan 0) := by
  refine Lasting.builds_of_covers (fun seen span => covers_of_promotionSpan) ?_
  rintro old build objects ⟨opening, tall, last, close, -, -, -, rfl⟩ - hobjects
  exact h.enclosed hnames _ _ (Lasting.interior hobjects)

theorem bracketedFraction (hnames : ∀ name ∈ delimiterNames, name ∉ names) (hfraction : ∀ name ∈ fractionNames, name ∉ names)
    (opening closing : Text) (hl : Everywhere Q l) : Everywhere Q [bracketedFraction opening closing l] := by
  refine h.enclosed hnames _ _ (h.fraction hfraction (hl.sublist ?_) (hl.sublist ?_))
  · exact (List.take_sublist ..).trans (List.drop_sublist ..)
  · exact (List.dropLast_sublist _).trans (List.drop_sublist ..)

theorem builds_fractionSpan (hnames : ∀ name ∈ delimiterNames, name ∉ names)
    (hfraction : ∀ name ∈ fractionNames, name ∉ names) : Builds Q (fractionSpan 0) := by
  refine Lasting.builds_of_covers (fun seen span => covers_of_fractionSpan) ?_
  rintro old build objects ⟨opening, integral, text, plus, sum, last, close, -, -, rfl⟩ - hobjects
  exact h.bracketedFraction hnames hfraction _ _ hobjects

end Concerns

/-! ### Parts of what is repaired -/

variable {Q : Node → Prop}

/-- Scripts on a large operator become an operator with their limits; other nodes stay as they are. -/
theorem promoteScript_cases (node : Node) : promoteScript node = node ∨ ∃ sign location,
    isGlyphOf largeOperators sign = true ∧
      promoteScript node = nary sign (slotChildren node "sub") (slotChildren node "sup") [] location := by
  unfold Repair.promoteScript
  split
  · split
    · dsimp only
      split
      · next hsign => exact .inr ⟨_, _, hsign, rfl⟩
      · exact .inl rfl
    · exact .inl rfl
  · exact .inl rfl

theorem everywhere_promoteScript (hnary : ∀ sign sub sup location, isGlyphOf largeOperators sign = true →
    Everywhere Q sub → Everywhere Q sup → Everywhere Q [nary sign sub sup [] location]) (hnode : Everywhere Q [node]) :
    Everywhere Q [promoteScript node] := by
  rcases promoteScript_cases node with heq | ⟨sign, location, hsign, heq⟩
  · rwa [heq]
  · rw [heq]
    exact hnary sign _ _ location hsign (Lasting.slotChildren hnode _) (Lasting.slotChildren hnode _)

/-- A run with a bar and digits becomes runs and scripts of runs. -/
theorem forall_mem_splitNormRun? {new : List Node} (hnew : splitNormRun? node = some new)
    (hrun : ∀ text, Q (run text node.runProperties?)) (hbar : ∀ digits, Q (scriptedBar digits node.runProperties?)) :
    ∀ n ∈ new, Q n := by
  have hunless : ∀ text, ∀ n ∈ runUnlessEmpty text node.runProperties?, Q n := by
    intro text n hn
    unfold runUnlessEmpty at hn
    split at hn
    · cases hn
    · rw [List.mem_singleton.1 hn]
      exact hrun text
  unfold Repair.splitNormRun? at hnew
  split at hnew
  · obtain rfl := Option.some.inj hnew
    exact List.forall_mem_append.2 ⟨hunless _, List.forall_mem_cons.2 ⟨hbar _, hunless _⟩⟩
  · cases hnew

/-- The properties of a run are among its children. -/
theorem everywhere_runProperties (hnode : Everywhere Q [node]) : Everywhere Q node.runProperties?.toList :=
  everywhere_iff_of_mem.2 fun _ hn =>
    (everywhere_singleton.1 hnode).2.of_mem (List.mem_of_find?_eq_some (Option.mem_toList.1 hn))

theorem isGlyphOf_largeOperators {sign : Text} (h : isGlyphOf integralGlyphs sign = true) :
    isGlyphOf largeOperators sign = true := by
  unfold isGlyphOf at h ⊢
  split at h
  · rw [Text.containsPoint, List.elem_eq_mem, decide_eq_true_eq] at h ⊢
    exact List.mem_append_left _ h
  · cases h

/-- The names of the nodes that repairs build or change, but for those with the text, the sign or the slots of scripts. -/
def changedNames : List Text := delimiterNames ++ Text.ofStrings ["nary", "naryPr", "limLoc", "t"]

/-- What is made of nodes that have the property has it, if operators have it, and runs, those that are split too. -/
theorem Concerns.oneStep {names : List Text} (h : Concerns names Q) (hnames : ∀ name ∈ changedNames, name ∉ names)
    (hnary : ∀ sign sub sup location, isGlyphOf largeOperators sign = true → Everywhere Q sub → Everywhere Q sup →
      Everywhere Q [Omml.nary sign sub sup [] location])
    (hsplit : ∀ n new, splitNormRun? n = some new → Everywhere Q [n] → Everywhere Q new)
    (hrun : ∀ text, Everywhere Q [plainRun text]) :
    OneStep fun old new => Everywhere Q old → Everywhere Q new := by
  have hdelimiter : ∀ name ∈ delimiterNames, name ∉ names := fun name hname => hnames name (List.mem_append_left _ hname)
  have hbody : ∀ name ∈ Text.ofStrings ["nary", "e"], name ∈ changedNames := by decide
  have hplace : ∀ name ∈ Text.ofStrings ["nary", "naryPr", "limLoc"], name ∈ changedNames := by decide
  exact {
    foreign := fun _ _ _ => everywhere_nil
    unwrapBox := Lasting.unwrapBox
    promoteScript := fun _ => everywhere_promoteScript hnary
    splitNormRun := hsplit
    ensureBody := fun _ => h.ensureBody fun name hname => hnames name (hbody name hname)
    appendToBody := fun _ _ hn _ hold => h.appendToBody (fun name hname => hnames name (hbody name hname)) hn
      (everywhere_cons.1 hold).1 (everywhere_cons.1 hold).2
    placeLimits := fun _ => h.placeLimits fun name hname => hnames name (hplace name hname)
    integral := fun _ lower upper _ hsign _ _ _ =>
      hnary _ _ _ _ (isGlyphOf_largeOperators hsign) (everywhere_limits hrun lower) (everywhere_limits hrun upper)
    enclose := fun opening closing _ _ _ _ _ hold =>
      h.enclosed hdelimiter opening closing (everywhere_append.1 (everywhere_cons.1 hold).2).1
    leaveOpen := fun opening _ _ _ hold => h.enclosed hdelimiter opening [] (everywhere_cons.1 hold).2
    dissolveInvalid := Lasting.dissolveInvalid
    normalizeTextElement := fun _ => h.normalizeTextElement (hnames _ (by decide)) }

end EquationExport.Omml
