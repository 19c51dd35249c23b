import EquationExport.Proofs.Omml.Kept

/-!
# What the builders build

The constructs that repairs build follow the schema, and are read as their parts: a run as its text, a script
as its slots, an n-ary operator as its sign and its slots, a delimiter construct as its content between its
delimiters.
-/

namespace EquationExport.Omml

open Xml Xml.Node Repair

variable {name value : Text} {l : List Node}

/-! ### Elements -/

@[simp] theorem label_valueElement (name value : Text) : label (valueElement name value) = name := rfl

theorem allProper_mathElement {strict : Bool} (haccepts : Accepts strict name (labels l))
    (hbare : name.endsWith "Pr" = true → Bare l) (hl : AllProper strict l) : AllProper strict [mathElement name l] := by
  refine everywhere_singleton.2 ⟨⟨⟨isMath_mathElement name l, haccepts, hbare, fun _ => ?_⟩, rfl⟩, hl⟩
  simp [isUndefined, Node.attribute?, mathElement, tag?, Tag.attribute?]

/-- The nodes may stand in a slot: they follow the schema, and there is no text among them. -/
structure FillsSlot (l : List Node) : Prop where
  proper : AllProper false l
  text : ("t" : Text) ∉ labels l

theorem fillsSlot_nil : FillsSlot [] := ⟨everywhere_nil, List.not_mem_nil⟩

theorem fillsSlot_append {a b : List Node} : FillsSlot (a ++ b) ↔ FillsSlot a ∧ FillsSlot b := by
  constructor
  · rintro ⟨hproper, htext⟩
    rw [labels_append, List.mem_append, not_or] at htext
    exact ⟨⟨(everywhere_append.1 hproper).1, htext.1⟩, ⟨(everywhere_append.1 hproper).2, htext.2⟩⟩
  · rintro ⟨⟨hpa, hta⟩, ⟨hpb, htb⟩⟩
    exact ⟨everywhere_append.2 ⟨hpa, hpb⟩, by rw [labels_append, List.mem_append, not_or]; exact ⟨hta, htb⟩⟩

/-- What is kept in a slot fills the slot as before. -/
theorem FillsSlot.of_kept {a b : List Node} (ha : FillsSlot a) (h : Kept false "e" a b) :
    FillsSlot b ∧ Text.legible (readings b) = Text.legible (readings a) := by
  have hkind : kindOf "e" = .other := by decide
  have haccepts : Accepts false "e" ([] ++ labels a ++ []) := by
    rw [accepts_other hkind]
    exact ⟨by simpa using ha.text, by simp⟩
  have hb := h ⟨ha.proper, fun hpr => absurd hpr (by decide), [], [], haccepts⟩
  have haccepts' := hb.accepts [] [] haccepts
  rw [accepts_other hkind] at haccepts'
  exact ⟨⟨hb.proper, by simpa using haccepts'.1⟩, hb.reading⟩

theorem fillsSlot_of_label {node : Node} {x : Text} (hproper : AllProper false [node]) (hlabel : label node = x)
    (hx : x ≠ "t") : FillsSlot [node] :=
  ⟨hproper, by rw [labels_cons, labels_nil, List.mem_singleton, hlabel]; exact Ne.symm hx⟩

theorem fillsSlot_mathElement (haccepts : Accepts false name (labels l)) (hbare : name.endsWith "Pr" = true → Bare l)
    (hl : AllProper false l) (ht : name ≠ "t") : FillsSlot [mathElement name l] :=
  fillsSlot_of_label (allProper_mathElement haccepts hbare hl) rfl ht

theorem allProper_slot (hkind : kindOf name = .other) (hpr : name.endsWith "Pr" = false) (h : FillsSlot l) :
    AllProper false [mathElement name l] := by
  refine allProper_mathElement ((accepts_other hkind).2 ⟨h.text, by simp⟩) (fun hends => ?_) h.proper
  rw [hpr] at hends
  cases hends

/-- Slots that may stand in a construct. -/
theorem fillsSlot_slot (hkind : kindOf name = .other) (hpr : name.endsWith "Pr" = false) (ht : name ≠ "t")
    (h : FillsSlot l) : FillsSlot [mathElement name l] :=
  fillsSlot_of_label (allProper_slot hkind hpr h) rfl ht

theorem allProper_valueElement (hkind : kindOf name = .other) (hvalue : name ∈ glyphProperties → value ≠ "undefined") :
    AllProper false [valueElement name value] := by
  refine everywhere_singleton.2 ⟨⟨⟨?_, ?_, fun _ => everywhere_nil, fun h => ?_⟩, rfl⟩, everywhere_nil⟩
  · simp [valueElement, isMath, name?, tag?, mathName]
  · exact (accepts_other hkind).2 ⟨List.not_mem_nil, by simp⟩
  · have hbare : bareValueName.same valueName = false := by decide
    have hname : valueName.same valueName = true := by decide
    have hother : valueName.same bareValueName = false := by decide
    simp [isUndefined, Node.attribute?, valueElement, tag?, Tag.attribute?, hname, hother, hvalue h]

/-- An element that is no text, no n-ary operator and no delimiter construct is read as its children. -/
theorem reading_mathElement (name : Text) (h : name ∉ Text.ofStrings ["t", "nary", "d"]) (l : List Node) :
    reading (mathElement name l) = readings l := by
  simp only [Text.ofStrings, List.map_cons, List.map_nil, List.mem_cons, List.not_mem_nil, or_false, not_or] at h
  obtain ⟨ht, hnary, hd⟩ := h
  rw [mathElement, reading_element, ← mathElement, readBefore, readAfter]
  simp [isNamed_mathElement, ht, hnary, hd]

theorem reading_valueElement (name value : Text) (h : name ∉ Text.ofStrings ["t", "nary", "d"]) :
    reading (valueElement name value) = [] := by
  simp only [Text.ofStrings, List.map_cons, List.map_nil, List.mem_cons, List.not_mem_nil, or_false, not_or] at h
  obtain ⟨ht, hnary, hd⟩ := h
  rw [valueElement, reading_element, ← valueElement, readBefore, readAfter]
  simp [isNamed_valueElement, ht, hnary, hd]

/-! ### Runs -/

/-- Properties that a run may have. -/
def AreRunProperties (properties : Option Node) : Prop :=
  ∀ p ∈ properties, AllProper false [p] ∧ label p = "rPr"

theorem areRunProperties_none : AreRunProperties none := by simp [AreRunProperties]

/-- The properties of a run are properties that a run may have. -/
theorem areRunProperties_runProperties? {node : Node} (h : AllProper false [node]) :
    AreRunProperties node.runProperties? := by
  intro p hp
  have hfind : node.children.find? (·.isNamed "rPr") = some p := hp
  have hnamed : p.isNamed "rPr" = true := by simpa using List.find?_some hfind
  exact ⟨(everywhere_singleton.1 h).2.of_mem (List.mem_of_find?_eq_some hfind), label_eq_of_isNamed hnamed⟩

/-- A text element of a run. -/
def textElement (text : Text) : Node :=
  .element ⟨mathName "t", [], if needsPreserve text then [preserveSpace] else []⟩ (some text) [] []

theorem run_eq (text : Text) (properties : Option Node) :
    run text properties = mathElement "r" (properties.toList ++ [textElement text]) := rfl

theorem isRun_run (text : Text) (properties : Option Node) : (run text properties).isRun = true :=
  isNamed_mathElement "r" "r" _

theorem allProper_textElement {text : Text} (h : text.hasSurrogate = false) :
    AllProper false [textElement text] := by
  refine everywhere_singleton.2 ⟨⟨⟨?_, rfl, fun _ => everywhere_nil, ?_⟩, h⟩, everywhere_nil⟩
  · simp [textElement, isMath, name?, tag?, mathName]
  · have hlabel : label (textElement text) ∉ glyphProperties := by
      show ("t" : Text) ∉ glyphProperties
      decide
    exact fun h => absurd h hlabel

theorem reading_textElement (text : Text) : reading (textElement text) = text := by
  have hname : (textElement text).isNamed "t" = true := by
    simp [textElement, isNamed, name?, tag?, mathName]
  have hd : (textElement text).isNamed "d" = false := isNamed_of_isNamed hname (by decide)
  rw [textElement, reading_element, ← textElement, readBefore, readAfter, hname, hd]
  simp [textElement, text?]

theorem fillsSlot_run {text : Text} {properties : Option Node} (hp : AreRunProperties properties)
    (h : text.hasSurrogate = false) : FillsSlot [run text properties] := by
  rw [run_eq]
  refine fillsSlot_mathElement ?_ (fun hends => absurd hends (by decide)) ?_ (by decide)
  · intro child hchild
    simp only [labels_append, List.mem_append, labels_cons, labels_nil, List.mem_singleton] at hchild
    rcases hchild with hchild | hchild
    · obtain ⟨p, hp', rfl⟩ := List.mem_map.1 hchild
      exact .inl (hp p (Option.mem_toList.1 hp')).2
    · exact .inr hchild
  · refine everywhere_append.2 ⟨everywhere_iff_of_mem.2 fun p hp' => ?_, allProper_textElement h⟩
    exact (hp p (Option.mem_toList.1 hp')).1

theorem reading_run {text : Text} {properties : Option Node} (hp : AreRunProperties properties) :
    reading (run text properties) = text := by
  have hnone : readings properties.toList = [] := by
    cases properties with
    | none => rfl
    | some p =>
      obtain ⟨hproper, hlabel⟩ := hp p rfl
      obtain ⟨hroot, hbelow⟩ := everywhere_singleton.1 hproper
      refine readings_eq_nil hproper (everywhere_singleton.2 ⟨?_, hroot.bare (by rw [hlabel]; decide)⟩) ?_
      · rw [isOneOf_eq_label hroot.isMath, hlabel]
        decide
      · rw [Option.toList, labels_cons, hlabel]
        decide
  rw [run_eq, reading_mathElement "r" (by decide), readings_append, hnone, List.nil_append,
    readings_cons, readings_nil, List.append_nil, reading_textElement]

/-! ### Scripts and fractions -/

section Slots

variable {base sub sup num den content : List Node}

theorem reading_subscript (base sub : List Node) : reading (subscript base sub) = readings base ++ readings sub := by
  rw [subscript, reading_mathElement "sSub" (by decide), readings_cons, readings_cons, readings_nil, List.append_nil,
    reading_mathElement "e" (by decide), reading_mathElement "sub" (by decide)]

theorem reading_subSuperscript (base sub sup : List Node) :
    reading (subSuperscript base sub sup) = readings base ++ (readings sub ++ readings sup) := by
  rw [subSuperscript, reading_mathElement "sSubSup" (by decide), readings_cons, readings_cons, readings_cons,
    readings_nil, List.append_nil, reading_mathElement "e" (by decide), reading_mathElement "sub" (by decide),
    reading_mathElement "sup" (by decide)]

theorem reading_fraction (num den : List Node) : reading (fraction num den) = readings num ++ readings den := by
  rw [fraction, reading_mathElement "f" (by decide), readings_cons, readings_cons, readings_nil, List.append_nil,
    reading_mathElement "num" (by decide), reading_mathElement "den" (by decide)]

theorem fillsSlot_subscript (hbase : FillsSlot base) (hsub : FillsSlot sub) : FillsSlot [subscript base sub] := by
  refine fillsSlot_mathElement ⟨[], rfl, .inl rfl⟩ (fun h => absurd h (by decide)) ?_ (by decide)
  exact everywhere_cons.2 ⟨allProper_slot (by decide) (by decide) hbase, allProper_slot (by decide) (by decide) hsub⟩

theorem fillsSlot_subSuperscript (hbase : FillsSlot base) (hsub : FillsSlot sub) (hsup : FillsSlot sup) :
    FillsSlot [subSuperscript base sub sup] := by
  refine fillsSlot_mathElement ⟨[], rfl, .inl rfl⟩ (fun h => absurd h (by decide)) ?_ (by decide)
  refine everywhere_cons.2 ⟨allProper_slot (by decide) (by decide) hbase, everywhere_cons.2 ⟨?_, ?_⟩⟩
  · exact allProper_slot (by decide) (by decide) hsub
  · exact allProper_slot (by decide) (by decide) hsup

theorem fillsSlot_fraction (hnum : FillsSlot num) (hden : FillsSlot den) : FillsSlot [fraction num den] := by
  refine fillsSlot_slot (by decide) (by decide) (by decide) (fillsSlot_append (a := [_]).2 ⟨?_, ?_⟩)
  · exact fillsSlot_slot (by decide) (by decide) (by decide) hnum
  · exact fillsSlot_slot (by decide) (by decide) (by decide) hden

/-! ### Delimiters -/

theorem delimiter_eq (opening closing : Text) (content : List Node) :
    delimiter opening closing content = mathElement "d"
      [mathElement "dPr" [valueElement "begChr" opening, valueElement "endChr" closing],
        mathElement "e" content] := rfl

theorem fillsSlot_delimiter {opening closing : Text} (hopening : opening ≠ "undefined")
    (hclosing : closing ≠ "undefined") (hcontent : FillsSlot content) :
    FillsSlot [delimiter opening closing content] := by
  have hproperties : AllProper false [valueElement "begChr" opening, valueElement "endChr" closing] :=
    everywhere_cons.2 ⟨allProper_valueElement (by decide) fun _ => hopening,
      allProper_valueElement (by decide) fun _ => hclosing⟩
  have hbare : Bare [valueElement "begChr" opening, valueElement "endChr" closing] := by
    refine everywhere_cons.2 ⟨everywhere_singleton.2 ⟨?_, everywhere_nil⟩,
      everywhere_singleton.2 ⟨?_, everywhere_nil⟩⟩ <;> rfl
  rw [delimiter_eq]
  refine fillsSlot_slot (by decide) (by decide) (by decide) (fillsSlot_append (a := [_]).2 ⟨?_, ?_⟩)
  · refine fillsSlot_mathElement ((accepts_other (by decide)).2 ⟨?_, by simp⟩) (fun _ => hbare) hproperties (by decide)
    exact (show ("t" : Text) ∉ Text.ofStrings ["begChr", "endChr"] by decide)
  · exact fillsSlot_slot (by decide) (by decide) (by decide) hcontent

theorem reading_delimiter (opening closing : Text) (content : List Node) :
    reading (delimiter opening closing content) = opening ++ readings content ++ closing := by
  have hname : ∀ other, (delimiter opening closing content).isNamed other = (("d" : Text) == other) := fun other =>
    isNamed_mathElement "d" other _
  have hbefore : readBefore (delimiter opening closing content) = opening := by
    have hopening : openingOf (delimiter opening closing content) = opening := rfl
    rw [readBefore, hname, hname, hname, hopening]
    rfl
  have hafter : readAfter (delimiter opening closing content) = closing := by
    have hclosing : closingOf (delimiter opening closing content) = closing := rfl
    rw [readAfter, hname, hclosing]
    rfl
  have hchildren : readings (delimiter opening closing content).children = readings content := by
    rw [delimiter_eq, children_mathElement, readings_cons, readings_cons, readings_nil, List.append_nil,
      reading_mathElement "dPr" (by decide), reading_mathElement "e" (by decide), readings_cons, readings_cons,
      reading_valueElement "begChr" _ (by decide), reading_valueElement "endChr" _ (by decide)]
    rfl
  calc reading (delimiter opening closing content)
      = readBefore (delimiter opening closing content) ++ readings (delimiter opening closing content).children ++
          readAfter (delimiter opening closing content) := rfl
    _ = opening ++ readings content ++ closing := by rw [hbefore, hafter, hchildren]

end Slots

end EquationExport.Omml
