import EquationExport.Proofs.Omml.Fraction
import EquationExport.Proofs.Omml.Hoisting
import EquationExport.Proofs.Omml.Values

/-!
# The place of limits after all repairs

One repair puts the limits of integrals under and over the sign, and eight repairs come after it. None of these builds
an operator or sets a property of one. But one removes undefined properties: without its sign an operator is an
integral, and without its place for limits it has none. And scripts that are taken apart may leave a group of
properties or a property in an operator. Where nothing of this can happen, every integral has its limits under and over
the sign at the end.
-/

namespace EquationExport.Omml

open Xml Xml.Node Repair

variable {node : Node} {l l' : List Node} {group name : Text} {f : Fragment}

/-! ### What is asked -/

/-- An integral has its limits under and over its sign. -/
def HasPlace (node : Node) : Prop :=
  isNaryOf integralGlyphs node = true → node.property? "naryPr" "limLoc" = some underOver

/-- The sign of an operator that goes as undefined leaves an integral only where there was one. -/
def IsSafeSign (node : Node) : Prop := node.isNamed "chr" = true → isUndefined node = true →
  (node.attribute? valueName).all (fun sign => sign.isEmpty || isGlyphOf integralGlyphs sign) = true

/-- The place of limits goes as undefined only for its value. -/
def IsSafePlace (node : Node) : Prop := node.isNamed "limLoc" = true → node.attribute? bareValueName ≠ some ("undefined" : Text)

/-- The names of the nodes that tell the sign and the place of the limits, and of the slots that may be taken apart. -/
def limitNames : List Text := Text.ofStrings ["e", "naryPr", "chr", "limLoc"]

instance (node : Node) : Decidable (IsSafeSign node) := inferInstanceAs (Decidable (_ → _ → _ = true))

instance (node : Node) : Decidable (IsSafePlace node) := inferInstanceAs (Decidable (_ → _ ≠ _))

theorem concerns_hasPlace : Concerns ["nary"] HasPlace := by
  intro node hother h
  rw [isOneOf, List.any_cons, List.any_nil, Bool.or_false] at hother
  rw [isNaryOf, hother] at h
  cases h

theorem concerns_isSafeSign : Concerns ["chr"] IsSafeSign := by
  intro node hother hnamed
  rw [isOneOf, List.any_cons, List.any_nil, Bool.or_false, hnamed] at hother
  cases hother

theorem local_isSafeSign : Local IsSafeSign := fun _ _ _ _ _ h => h

theorem local_isSafePlace : Local IsSafePlace := fun _ _ _ _ _ h => h

/-! ### What repairs make of signs and places -/

theorem lasting_isSafePlace : Lasting (fun _ => True) IsSafePlace where
  isLocal := local_isSafePlace
  own _ _ := trivial
  built _ _ := fun _ h => by cases h
  textElement _ _ := fun h => by cases h
  setValue value node _ h := fun hnamed => by
    have hother : valueName.same bareValueName = false := by decide
    rw [isNamed_setAttribute] at hnamed
    cases node with
    | element tag text l tail =>
      have hbare : (tag.setAttribute valueName value).attribute? bareValueName = tag.attribute? bareValueName :=
        Tag.attribute?_setAttribute_of_ne hother tag value
      exact fun hset => h hnamed (hbare.symm.trans hset)
    | comment | instruction => exact h hnamed
  normalized node h := by
    cases htext : node.isNamed "t" with
    | true =>
      intro hnamed
      have hsame : SameName node (normalizeTextElement node) := name?_normalizeTextElement node
      rw [hsame.isNamed, isNamed_of_isNamed htext (by decide)] at hnamed
      cases hnamed
    | false => rwa [normalizeTextElement_eq_self htext]
  text _ _ _ _ := trivial

/-- The sign of an operator that is built is one character, so it is not undefined. -/
theorem isSafeSign_nary (sign : Text) (sub sup : List Node) (location : Option Text)
    (hsign : isGlyphOf largeOperators sign = true) (hsub : Everywhere IsSafeSign sub) (hsup : Everywhere IsSafeSign sup) :
    Everywhere IsSafeSign [nary sign sub sup [] location] := by
  have hC := concerns_isSafeSign
  have hdefined : isUndefined (valueElement "chr" sign) = false := by
    refine isUndefined_eq_false_iff.2 ⟨fun hvalue => ?_, fun hvalue => by cases hvalue⟩
    obtain rfl : sign = "undefined" := Option.some.inj hvalue
    exact absurd (length_of_isGlyphOf hsign) (by decide)
  have hproperty : Everywhere IsSafeSign [valueElement "chr" sign] := by
    refine everywhere_singleton.2 ⟨fun _ hundefined => ?_, everywhere_nil⟩
    rw [hdefined] at hundefined
    cases hundefined
  exact hC.nary_of_signed (by decide) location (hC.construct (by decide) (everywhere_cons.2
    ⟨hC.construct (by decide) hproperty, everywhere_cons.2 ⟨hC.construct (by decide) hsub, everywhere_cons.2
      ⟨hC.construct (by decide) hsup, hC.construct (by decide) everywhere_nil⟩⟩⟩))

theorem steps_isSafeSign : Steps fun old new => Everywhere IsSafeSign old → Everywhere IsSafeSign new := by
  have hC := concerns_isSafeSign
  have hrun : ∀ text {properties : Option Node}, Everywhere IsSafeSign properties.toList →
      Everywhere IsSafeSign [run text properties] := fun text _ => hC.run (by decide) text
  refine { congruence_of_local local_isSafeSign, hC.oneStep (by decide) isSafeSign_nary (fun n new hnew h => ?_)
    fun text => hrun text everywhere_nil with }
  have hproperties := everywhere_runProperties h
  exact everywhere_iff_of_mem.2 (forall_mem_splitNormRun? hnew (fun text => hrun text hproperties)
    fun digits => hC.scriptedBar (by decide) (fun text => hrun text hproperties) digits)

/-! ### The repair of the limits -/

/-- Where limits are placed, every integral has them in their place. -/
theorem hasPlace_placeLimits (h : Everywhere HasPlace node.children) : Everywhere HasPlace [placeLimits node] := by
  unfold placeLimits
  split
  · cases node with
    | element tag text l tail =>
      have hgroup : ("naryPr" : Text) ∉ (["nary"] : List Text) := by decide
      have hname : ("limLoc" : Text) ∉ (["nary"] : List Text) := by decide
      have hl : Everywhere HasPlace l := h
      obtain ⟨l', heq, hl', -⟩ := concerns_hasPlace.exists_children_setProperty underOver hgroup hname tag text tail hl
      have hset := property?_setProperty "naryPr" "limLoc" underOver tag text l tail
      rw [heq] at hset ⊢
      exact everywhere_singleton.2 ⟨fun _ => hset, hl'⟩
    | comment | instruction => exact everywhere_singleton.2 ⟨fun hnary => (by cases hnary), everywhere_nil⟩
  · next hother => exact everywhere_singleton.2 ⟨fun h => absurd h hother, h⟩

theorem hasPlace_placeIntegralLimits (nodes : List Node) :
    Everywhere HasPlace (rebuildAll (fun n => [placeLimits n]) nodes) := by
  induction nodes using forest_induction with
  | nil => exact everywhere_nil
  | element tag text children tail rest ihc ihr => exact everywhere_append.2 ⟨hasPlace_placeLimits ihc, ihr⟩
  | comment content tail rest ih | instruction target content tail rest ih =>
    exact everywhere_append.2 ⟨hasPlace_placeLimits everywhere_nil, ih⟩

/-! ### Bases and sweeps -/

/-- The sign and the place of the limits are read off the groups of properties. -/
theorem HasPlace.of_values {tag : Tag} {text : Option Text} {tail : Text}
    (hvalues : ∀ name ∈ limitNames, groupValuesOf "naryPr" name l' = groupValuesOf "naryPr" name l)
    (h : HasPlace (element tag text l tail)) : HasPlace (element tag text l' tail) := by
  have hproperty : ∀ name ∈ limitNames,
      (element tag text l' tail).property? "naryPr" name = (element tag text l tail).property? "naryPr" name := by
    intro name hname
    rw [property?_eq, property?_eq, children_element, children_element, hvalues name hname]
  have hsign : operatorOf (element tag text l' tail) = operatorOf (element tag text l tail) := by
    rw [operatorOf, operatorOf, hproperty _ (by decide)]
  rw [HasPlace, hproperty _ (by decide), isNaryOf, hsign]
  exact h

theorem hasPlace_wrapBases (h : HasPlace node) : HasPlace (wrapBases node) := by
  cases node with
  | element tag text children tail =>
    cases hnary : (element tag text children tail).isNamed "nary" with
    | true =>
      rw [wrapBases_element (isScript_of_isNamed hnary (by decide))]
      exact h.of_values fun name _ => (sameGroups_wrapBasesAmong children).groupValuesOf name
    | false =>
      refine concerns_hasPlace _ ?_
      rw [isOneOf, List.any_cons, List.any_nil, Bool.or_false, isNamed, name?_wrapBases, ← isNamed, hnary]
  | comment | instruction => exact h

theorem survives_hasPlace (rule : SpanRule) : Survives HasPlace rule := by
  intro tag text children tail h
  unfold sweepInside
  split
  · next hcontainer => exact concerns_hasPlace.container (by decide) hcontainer
  · exact h.of_values fun name _ => (sameGroups_sweepNodes rule children).groupValuesOf name

/-! ### Scripts that are taken apart, and texts -/

theorem valuesOf_of_lacks (h : Lacks limitNames l) (hname : name ∈ limitNames) :
    valuesOf name l = [] ∧ groupValuesOf "naryPr" name l = [] :=
  ⟨valuesOf_eq_nil fun _ => h.isNamed hname, groupValuesOf_eq_nil (fun _ => h.isNamed (by decide)) name⟩

/-- The new nodes give none of the names, the values of properties are the same, and limits keep their place. -/
structure KeepsValues (old new : List Node) : Prop where
  passes : Passes limitNames old new
  values : ∀ name ∈ limitNames, valuesOf name new = valuesOf name old
  groupValues : ∀ name ∈ limitNames, groupValuesOf "naryPr" name new = groupValuesOf "naryPr" name old
  hasPlace : Everywhere HasPlace old → Everywhere HasPlace new

/-- From nodes that give none of the names come others with the same values. -/
def KeepsPlaces (old new : List Node) : Prop := Everywhere (GivesNone limitNames) old → KeepsValues old new

theorem congruence_keepsPlaces : Congruence KeepsPlaces where
  refl l h := ⟨GivesOn.refl _ l h, fun _ _ => rfl, fun _ _ => rfl, id⟩
  trans hab hbc h := by
    have hb := hab h
    have hc := hbc hb.passes.givesNone
    exact ⟨(congruence_givesOn _).trans (fun _ => hb.passes) (fun _ => hc.passes) h,
      fun name hname => (hc.values name hname).trans (hb.values name hname),
      fun name hname => (hc.groupValues name hname).trans (hb.groupValues name hname), fun ha => hc.hasPlace (hb.hasPlace ha)⟩
  append hab hcd h := by
    have hb := hab (everywhere_append.1 h).1
    have hd := hcd (everywhere_append.1 h).2
    refine ⟨(congruence_givesOn _).append (fun _ => hb.passes) (fun _ => hd.passes) h, fun name hname => ?_,
      fun name hname => ?_, fun hplaces => everywhere_append.2 ((everywhere_append.1 hplaces).imp hb.hasPlace hd.hasPlace)⟩
    · rw [valuesOf_append, valuesOf_append, hb.values name hname, hd.values name hname]
    · rw [groupValuesOf_append, groupValuesOf_append, hb.groupValues name hname, hd.groupValues name hname]
  inside {tag text l l' tail} hl h := by
    have hl' := hl (everywhere_singleton.1 h).2
    have htag : SameTag (element tag text l tail) (element tag text l' tail) := rfl
    refine ⟨(congruence_givesOn _).inside (fun _ => hl'.passes) h,
      fun name _ => valuesOf_of_sameTag (.cons htag .nil) name, fun name hname => ?_, fun hplaces => ?_⟩
    · cases hgroup : (element tag text l tail).isNamed "naryPr" with
      | true =>
        have hgroup' : (element tag text l' tail).isNamed "naryPr" = true := hgroup
        rw [groupValuesOf_cons_of_isNamed hgroup, groupValuesOf_cons_of_isNamed hgroup', children_element, children_element,
          hl'.values name hname]
      | false =>
        have hgroup' : (element tag text l' tail).isNamed "naryPr" = false := hgroup
        rw [groupValuesOf_singleton_of_name hgroup, groupValuesOf_singleton_of_name hgroup']
    · obtain ⟨hroot, hbelow⟩ := everywhere_singleton.1 hplaces
      exact everywhere_singleton.2 ⟨hroot.of_values hl'.groupValues, hl'.hasPlace hbelow⟩

/-- Where there was none of the names, there is none. -/
theorem KeepsPlaces.of_lacks {old new : List Node} (hold : Lacks limitNames old) (hnew : GivesOn limitNames old new)
    (hplace : Everywhere HasPlace old → Everywhere HasPlace new) : KeepsPlaces old new := by
  intro h
  have hpasses := hnew h
  have hnone := hpasses.lacks hold
  refine ⟨hpasses, fun name hname => ?_, fun name hname => ?_, hplace⟩
  · rw [(valuesOf_of_lacks hnone hname).1, (valuesOf_of_lacks hold hname).1]
  · rw [(valuesOf_of_lacks hnone hname).2, (valuesOf_of_lacks hold hname).2]

theorem steps_givesNoLimit : Steps (GivesOn limitNames) := steps_givesOn (by decide) (by decide)

theorem keepsPlaces_dissolveInvalid (n : Node) : KeepsPlaces [n] (dissolveInvalid n) := by
  cases hscript : n.isScript with
  | true =>
    obtain ⟨name, hname, hnamed⟩ := exists_scriptName hscript
    have hall : ∀ name ∈ scriptNames, name ∉ limitNames := by decide
    exact .of_lacks (lacks_singleton.2 (isOneOf_of_isNamed hnamed (hall name hname)))
      (steps_givesNoLimit.dissolveInvalid n) (Lasting.dissolveInvalid n)
  | false =>
    rw [dissolveInvalid, hscript]
    exact congruence_keepsPlaces.refl [n]

theorem keepsPlaces_normalizeTextElement (n : Node) : KeepsPlaces [n] [normalizeTextElement n] := by
  cases htext : n.isNamed "t" with
  | true =>
    exact .of_lacks (lacks_singleton.2 (isOneOf_of_isNamed htext (by decide))) (steps_givesNoLimit.normalizeTextElement n)
      (concerns_hasPlace.normalizeTextElement (by decide))
  | false =>
    rw [normalizeTextElement_eq_self htext]
    exact congruence_keepsPlaces.refl [n]

/-- Run properties without content tell no sign and no place. -/
theorem keepsPlaces_of_isEmptyRunProperties (h : isEmptyRunProperties node = true) : KeepsPlaces [node] [] :=
  .of_lacks (lacks_singleton.2 (isOneOf_of_isNamed (Bool.and_eq_true_iff.1 h).1 (by decide)))
    (.drop (by decide) _) fun _ => everywhere_nil

/-! ### Undefined properties -/

theorem isPropertyGroup_of_nary {tag : Tag} {text : Option Text} {tail : Text}
    (h : (element tag text l tail).isNamed "nary" = true) : isPropertyGroup tag = false := by
  have hlabel : tag.name.localPart = "nary" := label_eq_of_isNamed h
  rw [isPropertyGroup, hlabel]
  decide

/-- An operator that is an integral without its undefined properties was one with them. -/
theorem isNaryOf_of_pruneAll {tag : Tag} {text : Option Text} {tail : Text} (hsigns : Everywhere IsSafeSign l)
    (h : isNaryOf integralGlyphs (element tag text (pruneAll keepsDefined (some tag) l) tail) = true) :
    isNaryOf integralGlyphs (element tag text l tail) = true := by
  obtain ⟨hnary, hsign⟩ := Bool.and_eq_true_iff.1 h
  refine Bool.and_eq_true_iff.2 ⟨hnary, ?_⟩
  rw [operatorOf, property?_pruneAll (isPropertyGroup_of_nary hnary)] at hsign
  rw [operatorOf, property?_eq_head?]
  cases hproperties : propertiesOf "naryPr" "chr" l with
  | nil => rwa [hproperties] at hsign
  | cons sign rest =>
    have hmem : sign ∈ propertiesOf "naryPr" "chr" l := by rw [hproperties]; exact List.mem_cons_self
    cases hundefined : isUndefined sign with
    | false =>
      rw [hproperties, List.find?_cons, hundefined] at hsign
      exact hsign
    | true =>
      -- the sign goes, so it has to be that of an integral itself, or none
      have hsafe := everywhere_propertiesOf hsigns hmem (mem_propertiesOf hmem).1 hundefined
      rw [List.head?_cons, Option.bind_some]
      cases hvalue : sign.attribute? valueName with
      | none => decide
      | some value =>
        rw [hvalue, Option.all_some, Bool.or_eq_true] at hsafe
        dsimp only
        split
        · decide
        · next hvalue => exact hsafe.resolve_left hvalue

/-- A place for the limits that is the right one is not undefined. -/
theorem property?_limLoc_pruneAll {tag : Tag} {text : Option Text} {tail : Text} (htag : isPropertyGroup tag = false)
    (hplaces : Everywhere IsSafePlace l) (h : (element tag text l tail).property? "naryPr" "limLoc" = some underOver) :
    (element tag text (pruneAll keepsDefined (some tag) l) tail).property? "naryPr" "limLoc" = some underOver := by
  rw [property?_pruneAll htag]
  rw [property?_eq_head?] at h
  cases hproperties : propertiesOf "naryPr" "limLoc" l with
  | nil =>
    rw [hproperties] at h
    cases h
  | cons place rest =>
    have hmem : place ∈ propertiesOf "naryPr" "limLoc" l := by rw [hproperties]; exact List.mem_cons_self
    rw [hproperties, List.head?_cons, Option.bind_some] at h
    have hbare := everywhere_propertiesOf hplaces hmem (mem_propertiesOf hmem).1
    have hvalue : (some underOver : Option Text) ≠ some ("undefined" : Text) := by decide
    have hdefined : isUndefined place = false := isUndefined_eq_false_iff.2 ⟨by rwa [h], hbare⟩
    rw [List.find?_cons, hdefined]
    exact h

/-- An integral keeps its place for the limits when undefined properties go. -/
theorem HasPlace.prune {tag : Tag} {text : Option Text} {tail : Text} (h : HasPlace (element tag text l tail))
    (hsigns : Everywhere IsSafeSign l) (hplaces : Everywhere IsSafePlace l) :
    HasPlace (element tag text (pruneAll keepsDefined (some tag) l) tail) := by
  intro hintegral
  have htag := isPropertyGroup_of_nary (Bool.and_eq_true_iff.1 hintegral).1
  exact property?_limLoc_pruneAll htag hplaces (h (isNaryOf_of_pruneAll hsigns hintegral))

theorem hasPlace_pruneAll (nodes : List Node) (hsigns : Everywhere IsSafeSign nodes) (hplaces : Everywhere IsSafePlace nodes)
    (h : Everywhere HasPlace nodes) (parent : Option Tag) : Everywhere HasPlace (pruneAll keepsDefined parent nodes) := by
  induction nodes using forest_induction generalizing parent with
  | nil => exact everywhere_nil
  | element tag text children tail rest ihc ihr =>
    obtain ⟨hnode, hrest⟩ := everywhere_cons.1 h
    obtain ⟨hroot, hbelow⟩ := everywhere_singleton.1 hnode
    obtain ⟨hsign, hsigns⟩ := everywhere_cons.1 hsigns
    obtain ⟨hplace, hplaces⟩ := everywhere_cons.1 hplaces
    have hsigns' : Everywhere IsSafeSign children := (everywhere_singleton.1 hsign).2
    have hplaces' : Everywhere IsSafePlace children := (everywhere_singleton.1 hplace).2
    rw [pruneAll]
    split
    · exact everywhere_cons.2 ⟨everywhere_singleton.2 ⟨hroot.prune hsigns' hplaces', ihc hsigns' hplaces' hbelow (some tag)⟩,
        ihr hsigns hplaces hrest parent⟩
    · exact ihr hsigns hplaces hrest parent
  | comment content tail rest ih | instruction target content tail rest ih =>
    obtain ⟨hnode, hrest⟩ := everywhere_cons.1 h
    have hleft := ih (everywhere_cons.1 hsigns).2 (everywhere_cons.1 hplaces).2 hrest parent
    rw [pruneAll]
    split
    · exact everywhere_cons.2 ⟨hnode, hleft⟩
    · exact hleft

/-! ### All repairs -/

/-- Undefined signs and places are safe, and no box and no script gives a group of properties, a sign or a place. -/
structure IsSafe (l : List Node) : Prop where
  signs : Everywhere IsSafeSign l
  places : Everywhere IsSafePlace l
  givesNone : Everywhere (GivesNone limitNames) l

theorem givesOn_pruneAll (keep : Option Tag → Node → Bool) (l : List Node) : GivesOn limitNames l (pruneAll keep none l) :=
  (congruence_givesOn limitNames).pruneAll (fun _ n _ => .drop (by decide) [n]) l none

theorem givesOn_removeUndefinedStyles (f : Fragment) : GivesOn limitNames f.children (removeUndefinedStyles f).children :=
  (congruence_givesOn limitNames).trans (givesOn_pruneAll _ f.children) (givesOn_pruneAll _ _)

theorem IsSafe.apply (h : IsSafe f.children) (rule : RepairRule) (state : RepairState) :
    IsSafe (rule.apply state f).1.children where
  signs := by
    refine steps_isSafeSign.apply rule state f (fun _ opening closing out _ => ?_) (fun _ hsigns => ?_) h.signs
    · exact concerns_isSafeSign.bracketedFraction (by decide) (by decide) opening closing
    · exact local_isSafeSign.pruneAll _ _ _ (local_isSafeSign.pruneAll _ _ _ hsigns)
  places := lasting_isSafePlace.apply (fun _ _ _ _ hbare => by cases hbare) state h.places
  givesNone := by
    refine (steps_givesNoLimit.apply rule state f (fun _ opening closing out _ hout => ?_)
      (fun _ => givesOn_removeUndefinedStyles f) h.givesNone).givesNone
    exact .of_object (by decide) (show ("d" : Text) ∉ limitNames by decide) rfl
      ((concerns_givesNone limitNames).bracketedFraction (by decide) (by decide) opening closing hout)

/-- The repairs that are done after limits are placed. -/
def rulesAfterLimits : List RepairRule := RepairRule.all.drop 6

/-- No repair after this takes an integral the place of its limits. -/
theorem hasPlace_apply {rule : RepairRule} (hrule : rule ∈ rulesAfterLimits) (state : RepairState) (hsafe : IsSafe f.children)
    (h : Everywhere HasPlace f.children) : Everywhere HasPlace (rule.apply state f).1.children := by
  have hQ := concerns_hasPlace
  have hK := congruence_keepsPlaces
  cases rule with
  | wrapScriptBases => exact hQ.wrapBasesAmong (by decide) (fun _ => hasPlace_wrapBases) _ h
  | wrapBrackets => exact everywhere_sweepFor (survives_hasPlace _) (hQ.builds_bracketSpan (by decide)) _ _ h
  | wrapBraces => exact everywhere_sweepFor (survives_hasPlace _) (hQ.builds_braceSpan (by decide)) _ _ h
  | rebuildFractions =>
    exact everywhere_sweepFor (survives_hasPlace _) (hQ.builds_fractionSpan (by decide) (by decide)) maxSweeps f h
  | promoteDelimiters =>
    rw [RepairRule.apply]
    split
    · exact h
    · exact everywhere_sweepFor (survives_hasPlace _) (hQ.builds_promotionSpan (by decide)) _ _ h
  | repairInvalidScripts =>
    exact ((hK.trans (hK.rebuildAll keepsPlaces_dissolveInvalid f.children) (hK.rebuildAll keepsPlaces_dissolveInvalid _))
      hsafe.givesNone).hasPlace h
  | removeUndefinedStyles =>
    have hdefined := hasPlace_pruneAll f.children hsafe.signs hsafe.places h none
    have hgives := (givesOn_pruneAll keepsDefined f.children hsafe.givesNone).givesNone
    refine (hK.pruneAll (fun _ n hkeep => ?_) _ none hgives).hasPlace hdefined
    exact keepsPlaces_of_isEmptyRunProperties (by simpa using hkeep)
  | normalizeTexts => exact ((hK.rebuildAll keepsPlaces_normalizeTextElement f.children) hsafe.givesNone).hasPlace h
  | stripForeign | unwrapBoxes | rebuildIntegrals | repairNorms | adoptIntegrands | placeIntegralLimits =>
    exact absurd hrule (by decide)

theorem hasPlace_foldl (rules : List RepairRule) (hrules : ∀ rule ∈ rules, rule ∈ rulesAfterLimits)
    (start : Fragment × RepairState) (hsafe : IsSafe start.1.children) (h : Everywhere HasPlace start.1.children) :
    Everywhere HasPlace (rules.foldl (fun (f, state) rule => rule.apply state f) start).1.children := by
  induction rules generalizing start with
  | nil => exact h
  | cons rule rules ih =>
    refine ih (fun rule hrule => hrules rule (List.mem_cons_of_mem _ hrule)) _ (hsafe.apply rule start.2) ?_
    exact hasPlace_apply (hrules rule List.mem_cons_self) start.2 hsafe h

theorem IsSafe.foldl (rules : List RepairRule) (start : Fragment × RepairState) (h : IsSafe start.1.children) :
    IsSafe (rules.foldl (fun (f, state) rule => rule.apply state f) start).1.children := by
  induction rules generalizing start with
  | nil => exact h
  | cons rule rules ih => exact ih _ (h.apply rule start.2)

/-- Integrals have their limits in place after any choice of repairs with the one that puts them there. -/
theorem hasPlace_applyRules {keep : RepairRule → Bool} (hkeep : keep .placeIntegralLimits = true) (hsafe : IsSafe f.children) :
    Everywhere HasPlace (f.applyRules (RepairRule.all.filter keep)).children := by
  have hrules : RepairRule.all.filter keep =
      (RepairRule.all.take 5).filter keep ++ .placeIntegralLimits :: rulesAfterLimits.filter keep := by
    rw [← List.filter_cons_of_pos hkeep, ← List.filter_append]
    rfl
  rw [Fragment.applyRules, hrules, List.foldl_append, List.foldl_cons]
  have hbefore := IsSafe.foldl ((RepairRule.all.take 5).filter keep) (f, f.repairState) hsafe
  generalize ((RepairRule.all.take 5).filter keep).foldl (fun (f, state) rule => rule.apply state f) (f, f.repairState) = start
    at hbefore ⊢
  exact hasPlace_foldl _ (fun rule hrule => (List.mem_filter.1 hrule).1) _ (hbefore.apply .placeIntegralLimits start.2)
    (hasPlace_placeIntegralLimits start.1.children)

/-- Every integral of a repaired fragment has its limits under and over its sign. -/
theorem property?_limLoc_repair (f : Fragment) (skip : List Text) (hskip : skip.contains RepairRule.placeIntegralLimits.name = false)
    (hsigns : Everywhere IsSafeSign f.children) (hplaces : Everywhere IsSafePlace f.children)
    (hslots : Everywhere (GivesNone limitNames) f.children) :
    ∀ n ∈ (f.repair skip).nodes, isNaryOf integralGlyphs n = true → n.property? "naryPr" "limLoc" = some underOver := by
  have hsafe : IsSafe f.children := ⟨hsigns, hplaces, hslots⟩
  show Everywhere HasPlace (f.repair skip).children
  rw [Fragment.repair]
  split
  · rw [List.filter_filter]
    exact hasPlace_applyRules (by rw [hskip]; rfl) hsafe
  · exact hasPlace_applyRules (by rw [hskip]; rfl) hsafe

/-- An n-ary operator with a sign and a place for its limits. -/
def integralOver (sign : Text) (places : List Node) : Fragment where
  text := none
  children := [mathElement "nary" [mathElement "naryPr" (valueElement "chr" sign :: places), mathElement "sub" [],
    mathElement "sup" [], mathElement "e" [plainRun "x"]]]

theorem property?_limLoc_repair_integralOver :
    let f := integralOver "∮" [valueElement "limLoc" "subSup"]
    (([] : List Text).contains RepairRule.placeIntegralLimits.name = false ∧ Everywhere IsSafeSign f.children ∧
      Everywhere IsSafePlace f.children ∧ Everywhere (GivesNone limitNames) f.children) ∧
      ∀ n ∈ (f.repair []).nodes, isNaryOf integralGlyphs n = true → n.property? "naryPr" "limLoc" = some underOver := by
  intro f
  have hskip : ([] : List Text).contains RepairRule.placeIntegralLimits.name = false := rfl
  have hsigns : Everywhere IsSafeSign f.children := by decide +kernel
  have hplaces : Everywhere IsSafePlace f.children := by decide +kernel
  have hslots : Everywhere (GivesNone limitNames) f.children := by decide +kernel
  exact ⟨⟨hskip, hsigns, hplaces, hslots⟩, property?_limLoc_repair f [] hskip hsigns hplaces hslots⟩

/-- An operator whose sign goes as undefined is an integral without a place for its limits. -/
theorem exists_property?_limLoc_repair : ∃ n ∈ ((integralOver "undefined" []).repair []).nodes,
    isNaryOf integralGlyphs n = true ∧ n.property? "naryPr" "limLoc" ≠ some underOver := by
  decide +kernel

end EquationExport.Omml
