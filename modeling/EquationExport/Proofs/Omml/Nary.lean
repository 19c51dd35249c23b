import EquationExport.Proofs.Omml.Build

/-!
# N-ary operators

A property other than the sign can be set on an n-ary operator, and a missing body be given to it, without a
change in what is read. So an operator that a repair builds is read as its sign and its slots.
-/

namespace EquationExport.Omml

open Xml Xml.Node Repair

variable {strict : Bool} {parent : Text}

/-- The labels of the children of an n-ary operator. -/
def narySlots : List Text := Text.ofStrings ["naryPr", "sub", "sup", "e"]

theorem accepts_nary {children : List Text} : Accepts strict "nary" children ↔ children.Sublist narySlots := Iff.rfl

theorem not_bare_of_isNamed {node : Node} {name : Text} (h : node.isNamed name = true)
    (hname : name ∈ Text.ofStrings ["r", "nary", "d"]) : ¬ Bare [node] := by
  intro hbare
  obtain ⟨hr, hnary, hd⟩ := isNamed_of_bare hbare
  have hcases : name = "r" ∨ name = "nary" ∨ name = "d" := by simpa [Text.ofStrings] using hname
  rcases hcases with rfl | rfl | rfl
  · rw [h] at hr; cases hr
  · rw [h] at hnary; cases hnary
  · rw [h] at hd; cases hd

/-- A change of all children of an n-ary operator. -/
theorem Kept.nary {tag : Tag} {text : Option Text} {l l' : List Node} {tail : Text}
    (hnary : (element tag text l tail).isNamed "nary" = true)
    (h : AllProper strict l → (labels l).Sublist narySlots →
      AllProper strict l' ∧ (labels l').Sublist narySlots ∧ Text.legible (readings l') = Text.legible (readings l) ∧
        groupValuesOf "naryPr" "chr" l' = groupValuesOf "naryPr" "chr" l) :
    Kept strict parent [element tag text l tail] [element tag text l' tail] := by
  intro hwithin
  obtain ⟨hroot, hbelow⟩ := everywhere_singleton.1 hwithin.proper
  have hlabel : label (element tag text l tail) = "nary" := label_eq_of_isNamed hnary
  have hslots : (labels l).Sublist narySlots := by
    have haccepts := hroot.accepts
    rwa [hlabel, accepts_nary] at haccepts
  obtain ⟨hproper, hslots', hreading, hsign⟩ := h hbelow hslots
  have hnot : ¬ Bare [element tag text l tail] := not_bare_of_isNamed hnary (by decide)
  have hd : (element tag text l tail).isNamed "d" = false := isNamed_of_isNamed hnary (by decide)
  refine ⟨allProper_withChildren hwithin.proper ?_ (fun hpr => ?_) hproper, fun hbare => absurd hbare hnot, ?_,
    fun front rest haccepts => haccepts, fun hpr => absurd (hwithin.bare hpr) hnot, ?_⟩
  · rwa [hlabel, accepts_nary]
  · rw [hlabel] at hpr
    exact absurd hpr (by decide)
  · have hbefore : readBefore (element tag text l' tail) = readBefore (element tag text l tail) :=
      readBefore_congr (fun _ => hsign) fun h => by rw [h] at hd; cases hd
    have hafter : readAfter (element tag text l' tail) = readAfter (element tag text l tail) :=
      readAfter_congr fun h => by rw [h] at hd; cases hd
    simp only [readings_cons, readings_nil, List.append_nil, reading_element, hbefore, hafter, Text.legible_append,
      hreading]
  · intro group hgroup name _
    have hlabel' : label (element tag text l' tail) = "nary" := hlabel
    rw [groupValuesOf_of_label hgroup.mem hlabel (by decide), groupValuesOf_of_label hgroup.mem hlabel' (by decide)]

/-! ### Setting a property that is not read -/

section SetProperty

variable {name value : Text}

/-- The properties of n-ary operators that repairs set besides the sign. -/
def layoutProperties : List Text := Text.ofStrings ["limLoc", "subHide", "supHide"]

theorem kindOf_layoutProperty (h : name ∈ layoutProperties) : kindOf name = .other := by
  have hall : ∀ name ∈ layoutProperties, kindOf name = .other := by decide
  exact hall name h

theorem layoutProperty_not_mem (h : name ∈ layoutProperties) :
    name ∉ Text.ofStrings ["t", "r", "nary", "d"] ∧ name ∉ glyphProperties := by
  have hall : ∀ name ∈ layoutProperties, name ∉ Text.ofStrings ["t", "r", "nary", "d"] ∧ name ∉ glyphProperties := by
    decide
  exact hall name h

theorem bare_layoutProperty (h : name ∈ layoutProperties) : Bare [valueElement name value] := by
  have hnot := (layoutProperty_not_mem h).1
  simp only [Text.ofStrings, List.map_cons, List.map_nil, List.mem_cons, List.not_mem_nil, or_false, not_or] at hnot
  refine everywhere_singleton.2 ⟨?_, everywhere_nil⟩
  simp [isOneOf, isNamed_valueElement, hnot]

theorem reading_layoutProperty (h : name ∈ layoutProperties) : reading (valueElement name value) = [] := by
  have hall : ∀ name ∈ layoutProperties, name ∉ Text.ofStrings ["t", "nary", "d"] := by decide
  exact reading_valueElement name value (hall name h)

/-- A new property in the group of properties. -/
theorem Kept.layoutProperty (h : name ∈ layoutProperties) : Kept false "naryPr" [] [valueElement name value] := by
  intro _
  have hnot := layoutProperty_not_mem h
  refine ⟨allProper_valueElement (kindOf_layoutProperty h) fun hglyph => absurd hglyph hnot.2,
    fun _ => bare_layoutProperty h, ?_, ?_, ?_, ?_⟩
  · rw [readings_cons, reading_layoutProperty h]
    rfl
  · intro front rest haccepts
    have hkind : kindOf "naryPr" = .other := by decide
    have ht : ("t" : Text) ≠ name := by
      rintro rfl
      exact hnot.1 (by decide)
    rw [accepts_other hkind] at haccepts ⊢
    refine ⟨?_, by simp⟩
    simpa [ht] using haccepts.1
  · intro _ glyph hglyph
    exact valuesOf_of_label hglyph hnot.2
  · intro group hgroup
    rcases hgroup with ⟨hparent, -⟩ | ⟨hparent, -⟩
    · exact absurd hparent (by decide)
    · exact absurd hparent (by decide)

theorem Kept.setIn {old new : List Node} (hname : name ∈ layoutProperties) (h : SetIn name value old new) :
    Kept false "naryPr" old new := by
  rcases h with ⟨front, property, rest, rfl, hproperty, -, rfl⟩ | ⟨front, rest, rfl, -, rfl⟩
  · refine (Kept.refl front).append (Kept.cons (Kept.setAttribute ?_) (Kept.refl rest))
    rw [label_eq_of_isNamed hproperty]
    exact (layoutProperty_not_mem hname).2
  · exact (Kept.refl front).append ((Kept.layoutProperty hname).append (Kept.refl rest))

/-- The sign and the slots of an n-ary operator are read as before. -/
theorem Kept.setProperty {node : Node} (hname : name ∈ layoutProperties) (hnary : node.isNamed "nary" = true) :
    Kept false parent [node] [node.setProperty "naryPr" name value] := by
  cases node with
  | element tag text l tail =>
    rcases setProperty_cases "naryPr" name value tag text l tail with
      ⟨hnone, heq⟩ | ⟨front, gtag, gtext, old, gtail, rest, new, rfl, hgroup, -, hset, heq⟩
    · rw [heq]
      refine Kept.nary hnary fun hproper hslots => ⟨everywhere_cons.2 ⟨?_, hproper⟩, ?_, ?_, ?_⟩
      · refine allProper_mathElement ((accepts_other (by decide)).2 ⟨?_, by simp⟩) (fun _ => bare_layoutProperty hname)
          (allProper_valueElement (kindOf_layoutProperty hname) fun h => absurd h (layoutProperty_not_mem hname).2)
        intro ht
        rw [labels_cons, labels_nil, List.mem_singleton, label_valueElement] at ht
        exact (layoutProperty_not_mem hname).1 (by rw [← ht]; decide)
      · have hnot : ("naryPr" : Text) ∉ labels l := by
          intro hmem
          obtain ⟨n, hn, hlabel⟩ := List.mem_map.1 hmem
          have hnamed := hnone n hn
          rw [isNamed_eq_label (everywhere_singleton.1 (hproper.of_mem hn)).1.isMath, hlabel] at hnamed
          exact absurd hnamed (by decide)
        have hrest : (labels l).Sublist (Text.ofStrings ["sub", "sup", "e"]) := by
          generalize labels l = children at hslots hnot
          cases hslots with
          | cons _ h => exact h
          | cons_cons _ h => simp at hnot
        exact hrest.cons_cons _
      · rw [readings_cons, reading_mathElement "naryPr" (by decide), readings_cons, reading_layoutProperty hname]
        rfl
      · rw [← List.singleton_append, groupValuesOf_append]
        have hvalues : groupValuesOf "naryPr" "chr" [mathElement "naryPr" [valueElement name value]] =
            valuesOf "chr" [valueElement name value] := by
          simp [groupValuesOf, isNamed_mathElement]
        have hunread : valuesOf "chr" [valueElement name value] = [] :=
          valuesOf_of_label (by decide) (layoutProperty_not_mem hname).2
        rw [hvalues, hunread, List.nil_append]
    · rw [heq]
      refine Kept.inside ((Kept.refl front).append (Kept.cons (Kept.inside ?_) (Kept.refl rest)))
      rw [label_eq_of_isNamed hgroup]
      exact Kept.setIn hname hset
  | comment | instruction => cases hnary

end SetProperty

/-! ### Building an operator -/

section Build

variable {operator : Text} {sub sup base : List Node}

/-- An n-ary operator with its sign and no other property. -/
def signedNary (operator : Text) (sub sup base : List Node) : Node :=
  mathElement "nary" [mathElement "naryPr" [valueElement "chr" operator], mathElement "sub" sub, mathElement "sup" sup,
    mathElement "e" base]

theorem setProperty_chr (operator : Text) (sub sup base : List Node) :
    (mathElement "nary" [mathElement "sub" sub, mathElement "sup" sup, mathElement "e" base]).setProperty "naryPr" "chr"
      operator = signedNary operator sub sup base := rfl

theorem fillsSlot_signedNary (hoperator : operator ≠ "undefined") (hsub : FillsSlot sub) (hsup : FillsSlot sup)
    (hbase : FillsSlot base) : FillsSlot [signedNary operator sub sup base] := by
  have hbare : Bare [valueElement "chr" operator] := everywhere_singleton.2 ⟨rfl, everywhere_nil⟩
  have hsign : AllProper false [mathElement "naryPr" [valueElement "chr" operator]] := by
    refine allProper_mathElement ((accepts_other (by decide)).2 ⟨?_, by simp⟩) (fun _ => hbare)
      (allProper_valueElement (by decide) fun _ => hoperator)
    exact (show ("t" : Text) ∉ Text.ofStrings ["chr"] by decide)
  refine fillsSlot_mathElement (List.Sublist.refl narySlots) (fun h => absurd h (by decide)) ?_ (by decide)
  refine everywhere_cons.2 ⟨hsign, everywhere_cons.2 ⟨?_, everywhere_cons.2 ⟨?_, ?_⟩⟩⟩
  · exact allProper_slot (by decide) (by decide) hsub
  · exact allProper_slot (by decide) (by decide) hsup
  · exact allProper_slot (by decide) (by decide) hbase

theorem reading_signedNary (hoperator : operator ≠ []) (sub sup base : List Node) :
    reading (signedNary operator sub sup base) = operator ++ (readings sub ++ (readings sup ++ readings base)) := by
  have hname : ∀ other, (signedNary operator sub sup base).isNamed other = (("nary" : Text) == other) := fun other =>
    isNamed_mathElement "nary" other _
  have hbefore : readBefore (signedNary operator sub sup base) = operator := by
    have hsign : (signedNary operator sub sup base).property? "naryPr" "chr" = some operator := rfl
    have hempty : operator.isEmpty = false := by simpa using hoperator
    rw [readBefore, hname, hname, operatorOf, hsign]
    simp only [hempty]
    rfl
  have hafter : readAfter (signedNary operator sub sup base) = [] := by
    rw [readAfter, hname]
    rfl
  have hchildren : readings (signedNary operator sub sup base).children =
      readings sub ++ (readings sup ++ readings base) := by
    rw [signedNary, children_mathElement, readings_cons, readings_cons, readings_cons, readings_cons, readings_nil,
      reading_mathElement "naryPr" (by decide), reading_mathElement "sub" (by decide),
      reading_mathElement "sup" (by decide), reading_mathElement "e" (by decide), readings_cons, readings_nil,
      reading_valueElement "chr" _ (by decide), List.nil_append, List.nil_append, List.append_nil]
  calc reading (signedNary operator sub sup base)
      = readBefore (signedNary operator sub sup base) ++ readings (signedNary operator sub sup base).children ++
          readAfter (signedNary operator sub sup base) := rfl
    _ = operator ++ (readings sub ++ (readings sup ++ readings base)) := by
      rw [hbefore, hafter, hchildren, List.append_nil]

@[simp] theorem isNamed_setPropertyIf (condition : Bool) (group name value other : Text) (node : Node) :
    (setPropertyIf condition group name value node).isNamed other = node.isNamed other := by
  cases condition with
  | false => rfl
  | true => exact isNamed_setProperty ..

theorem Kept.setPropertyIf {condition : Bool} {name value : Text} {node : Node} (hname : name ∈ layoutProperties)
    (hnary : node.isNamed "nary" = true) :
    Kept false parent [node] [setPropertyIf condition "naryPr" name value node] := by
  cases condition with
  | false => exact Kept.refl _
  | true => exact Kept.setProperty hname hnary

theorem isNamed_nary (operator : Text) (sub sup base : List Node) (location : Option Text) :
    (nary operator sub sup base location).isNamed "nary" = true := by
  rw [nary, setProperty_chr, isNamed_setPropertyIf, isNamed_setPropertyIf, isNamed_setPropertyIf, signedNary,
    isNamed_mathElement_self]

/-- An n-ary operator that is built fills a slot, and is read as its sign and its slots. -/
theorem fillsSlot_nary {location : Option Text} (hnil : operator ≠ []) (hoperator : operator ≠ "undefined")
    (hsub : FillsSlot sub) (hsup : FillsSlot sup) (hbase : FillsSlot base) :
    FillsSlot [nary operator sub sup base location] ∧
      Text.legible (readings [nary operator sub sup base location]) =
        Text.legible (operator ++ (readings sub ++ (readings sup ++ readings base))) := by
  have hsigned : (signedNary operator sub sup base).isNamed "nary" = true := by
    rw [signedNary, isNamed_mathElement_self]
  -- the layout is set property by property, and none of them is read
  have hkept : Kept false "e" [signedNary operator sub sup base] [nary operator sub sup base location] := by
    rw [nary, setProperty_chr]
    refine Kept.trans (Kept.setPropertyIf ?_ hsigned) (Kept.trans (Kept.setPropertyIf ?_ ?_) (Kept.setPropertyIf ?_ ?_))
    · decide
    · decide
    · rw [isNamed_setPropertyIf, hsigned]
    · decide
    · rw [isNamed_setPropertyIf, isNamed_setPropertyIf, hsigned]
  have hread : readings [signedNary operator sub sup base] =
      operator ++ (readings sub ++ (readings sup ++ readings base)) := by
    rw [readings_cons, readings_nil, List.append_nil, reading_signedNary hnil]
  have hfills := (fillsSlot_signedNary hoperator hsub hsup hbase).of_kept hkept
  rwa [hread] at hfills

end Build

end EquationExport.Omml
