import EquationExport.Proofs.Omml.Schema

/-!
# Changes that keep what is read

A repair changes children of an element into others. `Kept` says that such a change leaves what can be read
as it is, and that the new children are as proper in their place as the old ones were. Changes follow one
another, stand side by side and happen inside an element; so a repair is shown to keep what is read by
looking at the few nodes that it rebuilds.
-/

/-!
### Runs, and trees without objects

In a tree without runs, n-ary operators and delimiter constructs nothing is read but text, and where the
schema is followed there is no text either. The children of a run are such trees, so a run is read as its text.
-/

namespace EquationExport.Omml

open Xml Xml.Node Repair

variable {strict : Bool} {node : Node} {l : List Node}

/-! ### Trees without objects -/

theorem isNamed_of_bare (h : Bare [node]) :
    node.isNamed "r" = false ∧ node.isNamed "nary" = false ∧ node.isNamed "d" = false := by
  have hroot := (everywhere_singleton.1 h).1
  simpa [isOneOf] using hroot

theorem glyphs_of_bare (h : Bare l) (hmem : node ∈ l) : node.glyphs = [] := by
  have hrun : node.isRun = false := (isNamed_of_bare (h.of_mem hmem)).1
  simp [glyphs, runText?, hrun, Text.trim, Text.trimStart, Text.trimEnd]

/-- Without objects only texts are read. -/
theorem readings_of_bare (h : Bare l) :
    readings l = ((subtrees l).filter (·.isNamed "t")).flatMap fun t => t.text?.getD [] := by
  induction l using forest_induction with
  | nil => rfl
  | element tag text children tail rest ihc ihr =>
    obtain ⟨hnode, hrest⟩ := everywhere_cons.1 h
    obtain ⟨-, hnary, hd⟩ := isNamed_of_bare hnode
    rw [readings_cons, reading_element, ihc (everywhere_singleton.1 hnode).2, ihr hrest, subtrees_cons, subtree,
      List.filter_append, List.flatMap_append, List.filter_cons]
    by_cases ht : (element tag text children tail).isNamed "t" = true
    · simp [readBefore, readAfter, ht, hd]
    · simp [readBefore, readAfter, ht, hnary, hd]
  | comment content tail rest ih | instruction target content tail rest ih =>
    obtain ⟨-, hrest⟩ := everywhere_cons.1 h
    rw [readings_cons, ih hrest]
    rfl

/-- Without objects and texts nothing is read. -/
theorem readings_eq_nil (hproper : AllProper strict l) (hbare : Bare l) (htext : ("t" : Text) ∉ labels l) :
    readings l = [] := by
  induction l using forest_induction with
  | nil => rfl
  | element tag text children tail rest ihc ihr =>
    obtain ⟨hnode, hrest⟩ := everywhere_cons.1 hproper
    obtain ⟨hroot, hbelow⟩ := everywhere_singleton.1 hnode
    obtain ⟨hbnode, hbrest⟩ := everywhere_cons.1 hbare
    obtain ⟨hr, hnary, hd⟩ := isNamed_of_bare hbnode
    rw [labels_cons, List.mem_cons, not_or] at htext
    have ht : (element tag text children tail).isNamed "t" = false := by
      rw [hroot.isNamed_eq, beq_eq_false_iff_ne]
      exact Ne.symm htext.1
    have hchildren : ("t" : Text) ∉ labels children := by
      refine hroot.accepts.text_not_mem ?_
      rw [hroot.isNamed_eq, beq_eq_false_iff_ne] at hr
      exact hr
    rw [readings_cons, reading_element, ihc hbelow (everywhere_singleton.1 hbnode).2 hchildren,
      ihr hrest hbrest htext.2]
    simp [readBefore, readAfter, ht, hnary, hd]
  | comment content tail rest ih | instruction target content tail rest ih =>
    rw [labels_cons, List.mem_cons, not_or] at htext
    rw [readings_cons, ih (everywhere_cons.1 hproper).2 (everywhere_cons.1 hbare).2 htext.2]
    rfl

/-! ### Runs -/

theorem label_of_isRun (h : node.isRun = true) : label node = "r" := label_eq_of_isNamed h

/-- No object stands in a run. -/
theorem bare_children_of_isRun (h : AllProper strict [node]) (hrun : node.isRun = true) : Bare node.children := by
  obtain ⟨hroot, hbelow⟩ := everywhere_singleton.1 h
  have haccepts := hroot.accepts
  rw [label_of_isRun hrun] at haccepts
  refine everywhere_iff_of_mem.2 fun child hmem => ?_
  obtain ⟨hchild, hinside⟩ := everywhere_singleton.1 (hbelow.of_mem hmem)
  have hlabel : label child = "rPr" ∨ label child = "t" :=
    haccepts (label child) (List.mem_map_of_mem hmem)
  refine everywhere_singleton.2 ⟨?_, ?_⟩
  · rcases hlabel with hlabel | hlabel <;> (rw [isOneOf_eq_label hchild.isMath, hlabel]; decide)
  · rcases hlabel with hlabel | hlabel
    · exact hchild.bare (by rw [hlabel]; decide)
    · have hnone : labels child.children = [] := by
        have := hchild.accepts
        rwa [hlabel] at this
      rw [List.map_eq_nil_iff.1 hnone]
      exact everywhere_nil

/-- A run is read as its text. -/
theorem runText?_eq (h : AllProper strict [node]) (hrun : node.isRun = true) : node.runText? = some (reading node) := by
  cases node with
  | element tag text children tail =>
    have hnot : ∀ name, ((("r" : Text) == name) = false) → (element tag text children tail).isNamed name = false :=
      fun name hne => isNamed_of_isNamed hrun hne
    have hchildren : Bare children := bare_children_of_isRun h hrun
    rw [runText?, if_pos hrun, reading_element, readings_of_bare hchildren, subtree, List.filter_cons,
      hnot "t" (by decide)]
    simp [readBefore, readAfter, hnot "t" (by decide), hnot "nary" (by decide), hnot "d" (by decide)]
  | comment | instruction => cases hrun

theorem legible_glyphs (h : AllProper strict [node]) (hglyphs : node.glyphs ≠ []) :
    Text.legible node.glyphs = Text.legible (reading node) := by
  rw [glyphs, runText?_eq h (isRun_of_glyphs hglyphs), Option.getD_some, Text.legible_trim]

end EquationExport.Omml

namespace EquationExport.Omml

open Xml Xml.Node Repair

/-! ### Groups that are read -/

/-- The groups with properties that are read. -/
def readGroups : List Text := Text.ofStrings ["naryPr", "dPr"]

/-- Properties in a group of this name are read, in a construct with the label. -/
def IsReadGroup (parent group : Text) : Prop := (parent = "nary" ∧ group = "naryPr") ∨ (parent = "d" ∧ group = "dPr")

theorem IsReadGroup.mem {parent group : Text} (h : IsReadGroup parent group) : group ∈ readGroups := by
  rcases h with ⟨-, rfl⟩ | ⟨-, rfl⟩
  · decide
  · decide

/-! ### Changes -/

/-- The children may stand in an element with the label, among others. -/
structure Within (strict : Bool) (parent : Text) (l : List Node) : Prop where
  proper : AllProper strict l
  bare : parent.endsWith "Pr" = true → Bare l
  accepts : ∃ front rest, Accepts strict parent (front ++ labels l ++ rest)

/-- What can be read is the same, and the new children stand where the old ones stood. -/
structure Preserves (strict : Bool) (parent : Text) (old new : List Node) : Prop where
  proper : AllProper strict new
  bare : Bare old → Bare new
  reading : Text.legible (readings new) = Text.legible (readings old)
  accepts : ∀ front rest, Accepts strict parent (front ++ labels old ++ rest) →
    Accepts strict parent (front ++ labels new ++ rest)
  /-- In a group the properties that are read keep their values. -/
  values : parent.endsWith "Pr" = true → ∀ name ∈ glyphProperties, valuesOf name new = valuesOf name old
  /-- So they do in the groups of a construct whose properties are read. -/
  groups : ∀ group, IsReadGroup parent group → ∀ name ∈ glyphProperties,
    groupValuesOf group name new = groupValuesOf group name old

/-- The change keeps what is read, if the old children may stand in an element with the label. -/
def Kept (strict : Bool) (parent : Text) (old new : List Node) : Prop :=
  Within strict parent old → Preserves strict parent old new

variable {strict : Bool} {parent : Text} {a b c : List Node} {a' b' : List Node}

theorem Within.append_left (h : Within strict parent (a ++ b)) : Within strict parent a := by
  obtain ⟨front, rest, haccepts⟩ := h.accepts
  refine ⟨(everywhere_append.1 h.proper).1, fun hpr => (everywhere_append.1 (h.bare hpr)).1, front,
    labels b ++ rest, ?_⟩
  simpa using haccepts

theorem Within.append_right (h : Within strict parent (a ++ b)) : Within strict parent b := by
  obtain ⟨front, rest, haccepts⟩ := h.accepts
  refine ⟨(everywhere_append.1 h.proper).2, fun hpr => (everywhere_append.1 (h.bare hpr)).2,
    front ++ labels a, rest, ?_⟩
  simpa using haccepts

namespace Kept

theorem refl (a : List Node) : Kept strict parent a a := fun h =>
  ⟨h.proper, id, rfl, fun _ _ haccepts => haccepts, fun _ _ _ => rfl, fun _ _ _ _ => rfl⟩

/-- One change after another. -/
theorem trans (hab : Kept strict parent a b) (hbc : Kept strict parent b c) : Kept strict parent a c := by
  intro h
  have hb := hab h
  obtain ⟨front, rest, haccepts⟩ := h.accepts
  have hc := hbc ⟨hb.proper, fun hpr => hb.bare (h.bare hpr), front, rest, hb.accepts front rest haccepts⟩
  exact {
    proper := hc.proper
    bare := fun hbare => hc.bare (hb.bare hbare)
    reading := hc.reading.trans hb.reading
    accepts := fun front rest h => hc.accepts front rest (hb.accepts front rest h)
    values := fun hpr name hname => (hc.values hpr name hname).trans (hb.values hpr name hname)
    groups := fun group hgroup name hname =>
      (hc.groups group hgroup name hname).trans (hb.groups group hgroup name hname) }

/-- Two changes side by side. -/
theorem append (ha : Kept strict parent a a') (hb : Kept strict parent b b') :
    Kept strict parent (a ++ b) (a' ++ b') := by
  intro h
  have ha' := ha h.append_left
  have hb' := hb h.append_right
  refine ⟨everywhere_append.2 ⟨ha'.proper, hb'.proper⟩, ?_, ?_, ?_, ?_, ?_⟩
  · intro hbare
    obtain ⟨hbarea, hbareb⟩ := everywhere_append.1 hbare
    exact everywhere_append.2 ⟨ha'.bare hbarea, hb'.bare hbareb⟩
  · rw [readings_append, readings_append, Text.legible_append, Text.legible_append, ha'.reading, hb'.reading]
  · intro front rest haccepts
    have hfirst := ha'.accepts front (labels b ++ rest) (by simpa using haccepts)
    have hsecond := hb'.accepts (front ++ labels a') rest (by simpa using hfirst)
    simpa using hsecond
  · intro hpr name hname
    rw [valuesOf_append, valuesOf_append, ha'.values hpr name hname, hb'.values hpr name hname]
  · intro group hgroup name hname
    rw [groupValuesOf_append, groupValuesOf_append, ha'.groups group hgroup name hname,
      hb'.groups group hgroup name hname]

theorem cons {n n' : Node} (hn : Kept strict parent [n] [n']) (hb : Kept strict parent b b') :
    Kept strict parent (n :: b) (n' :: b') :=
  hn.append hb

/-- A change of the children of an element. -/
theorem inside {tag : Tag} {text : Option Text} {l l' : List Node} {tail : Text}
    (h : Kept strict (label (element tag text l tail)) l l') :
    Kept strict parent [element tag text l tail] [element tag text l' tail] := by
  intro hwithin
  obtain ⟨hroot, hbelow⟩ := everywhere_singleton.1 hwithin.proper
  have hl := h ⟨hbelow, hroot.bare, [], [], by simpa using hroot.accepts⟩
  have haccepts : Accepts strict (label (element tag text l tail)) (labels l') := by
    simpa using hl.accepts [] [] (by simpa using hroot.accepts)
  refine ⟨allProper_withChildren hwithin.proper haccepts (fun hpr => hl.bare (hroot.bare hpr)) hl.proper, ?_, ?_, ?_,
    ?_, ?_⟩
  · intro hbare
    obtain ⟨hbroot, hbbelow⟩ := everywhere_singleton.1 hbare
    exact everywhere_singleton.2 ⟨hbroot, hl.bare hbbelow⟩
  · have hbefore : readBefore (element tag text l' tail) = readBefore (element tag text l tail) := by
      refine readBefore_congr (fun hnary => ?_) (fun hd => ?_)
      · exact hl.groups "naryPr" (.inl ⟨label_eq_of_isNamed hnary, rfl⟩) "chr" (by decide)
      · exact hl.groups "dPr" (.inr ⟨label_eq_of_isNamed hd, rfl⟩) "begChr" (by decide)
    have hafter : readAfter (element tag text l' tail) = readAfter (element tag text l tail) :=
      readAfter_congr fun hd => hl.groups "dPr" (.inr ⟨label_eq_of_isNamed hd, rfl⟩) "endChr" (by decide)
    simp only [readings_cons, readings_nil, List.append_nil, reading_element, hbefore, hafter, Text.legible_append,
      hl.reading]
  · exact fun front rest haccepts => haccepts
  · intro _ name _
    have hname : (element tag text l' tail).isNamed name = (element tag text l tail).isNamed name := rfl
    have hvalue : (element tag text l' tail).attribute? valueName = (element tag text l tail).attribute? valueName := rfl
    cases hnamed : (element tag text l tail).isNamed name with
    | false => rw [valuesOf_singleton_of_name hnamed, valuesOf_singleton_of_name (hname.trans hnamed)]
    | true => simp only [valuesOf, List.filter_cons, hname, hnamed, if_true, List.filter_nil, List.map_cons, hvalue]
  · intro group hgroup name hname
    by_cases hnamed : (element tag text l tail).isNamed group = true
    · have hpr : (label (element tag text l tail)).endsWith "Pr" = true := by
        rw [label_eq_of_isNamed hnamed]
        have hgroups : ∀ group ∈ readGroups, group.endsWith "Pr" = true := by decide
        exact hgroups group hgroup.mem
      have hnamed' : (element tag text l' tail).isNamed group = true := hnamed
      simp only [groupValuesOf, List.filter_cons, hnamed, hnamed', if_true, List.filter_nil, List.flatMap_cons,
        List.flatMap_nil, children_element, hl.values hpr name hname]
    · rw [Bool.not_eq_true] at hnamed
      have hnamed' : (element tag text l' tail).isNamed group = false := hnamed
      rw [groupValuesOf_singleton_of_name hnamed, groupValuesOf_singleton_of_name hnamed']

/-- A change of the nodes of a tree, from the leaves up. -/
theorem rebuildAll {f : Node → List Node} (hf : ∀ parent n, Kept strict parent [n] (f n)) (nodes : List Node) :
    ∀ parent, Kept strict parent nodes (rebuildAll f nodes) := by
  induction nodes using forest_induction with
  | nil => exact fun parent => refl []
  | element tag text children tail rest ihc ihr =>
    exact fun parent => ((inside (ihc _)).trans (hf parent _)).append (ihr parent)
  | comment content tail rest ih | instruction target content tail rest ih =>
    exact fun parent => (hf parent _).append (ih parent)

end Kept

/-! ### Changes of one element -/

/-- An object is no group of properties. -/
theorem groupValuesOf_of_label {node : Node} {group name x : Text}
    (hgroup : group ∈ readGroups) (hlabel : label node = x) (hx : x ∉ readGroups) : groupValuesOf group name [node] = [] := by
  refine groupValuesOf_singleton_of_name ?_
  rw [← Bool.not_eq_true]
  intro hnamed
  rw [← hlabel, label_eq_of_isNamed hnamed] at hx
  exact hx hgroup

theorem valuesOf_of_label {node : Node} {name : Text} (hname : name ∈ glyphProperties)
    (hlabel : label node ∉ glyphProperties) : valuesOf name [node] = [] := by
  refine valuesOf_singleton_of_name ?_
  rw [← Bool.not_eq_true]
  intro hnamed
  rw [label_eq_of_isNamed hnamed] at hlabel
  exact hlabel hname

/-- Another tag of the same name, and a text that is read like the old one, for what is no property that is read. -/
theorem Kept.retag {tag tag' : Tag} {text text' : Option Text} {l : List Node} {tail : Text}
    (hname : tag'.name = tag.name) (hlabel : label (element tag text l tail) ∉ glyphProperties)
    (htext : Text.hasSurrogate (text.getD []) = false → Text.hasSurrogate (text'.getD []) = false ∧
      Text.legible (text'.getD []) = Text.legible (text.getD [])) :
    Kept strict parent [element tag text l tail] [element tag' text' l tail] := by
  intro hwithin
  obtain ⟨hroot, hbelow⟩ := everywhere_singleton.1 hwithin.proper
  have hname? : (element tag' text' l tail).name? = (element tag text l tail).name? := congrArg some hname
  have hlabel' : label (element tag' text' l tail) = label (element tag text l tail) := by
    simp only [label, localPart?, hname?]
  have hnamed : ∀ name, (element tag' text' l tail).isNamed name = (element tag text l tail).isNamed name := by
    intro name
    simp only [isNamed, hname?]
  obtain ⟨hsound, hlegible⟩ := htext hroot.sound
  refine ⟨everywhere_singleton.2 ⟨⟨⟨?_, ?_, ?_, ?_⟩, hsound⟩, hbelow⟩, ?_, ?_, ?_, ?_, ?_⟩
  · simpa only [isMath, hname?] using hroot.isMath
  · rw [hlabel']
    exact hroot.accepts
  · rw [hlabel']
    exact hroot.bare
  · rw [hlabel']
    exact fun h => absurd h hlabel
  · intro hbare
    obtain ⟨hbroot, hbbelow⟩ := everywhere_singleton.1 hbare
    refine everywhere_singleton.2 ⟨?_, hbbelow⟩
    have hisNamed : (element tag' text' l tail).isNamed = (element tag text l tail).isNamed := funext hnamed
    rwa [isOneOf, hisNamed]
  · have hbefore : Text.legible (readBefore (element tag' text' l tail)) =
        Text.legible (readBefore (element tag text l tail)) := by
      simp only [readBefore, hnamed, text?, operatorOf, openingOf, property?_eq, children_element]
      split
      · exact hlegible
      · rfl
    have hafter : readAfter (element tag' text' l tail) = readAfter (element tag text l tail) := by
      simp only [readAfter, hnamed, closingOf, property?_eq, children_element]
    simp only [readings_cons, readings_nil, List.append_nil, reading_element, Text.legible_append, hbefore, hafter]
  · intro front rest haccepts
    rwa [labels_cons, hlabel']
  · intro _ name hname
    rw [valuesOf_of_label hname hlabel, valuesOf_of_label hname (by rwa [hlabel'])]
  · intro group _ name _
    simp only [groupValuesOf, List.filter_cons, hnamed]
    split <;> rfl

theorem Kept.setAttribute {node : Node} {key : Name} {value : Text} (hlabel : label node ∉ glyphProperties) :
    Kept strict parent [node] [node.setAttribute key value] := by
  cases node with
  | element tag text l tail => exact Kept.retag (Tag.name_setAttribute ..) hlabel fun h => ⟨h, rfl⟩
  | comment | instruction => exact Kept.refl _

/-! ### Objects in the place of objects -/

/-- A change of objects that are read, among children that no group and no construct with properties holds. -/
theorem Kept.of_object {old new : List Node} (hobject : ∃ n ∈ old, IsObject (label n))
    (hread : ¬ Bare old) (htext : ("t" : Text) ∉ labels new)
    (hgroups : ∀ group, IsReadGroup parent group → ∀ name ∈ glyphProperties,
      groupValuesOf group name new = groupValuesOf group name old)
    (h : Within false parent old → AllProper false new ∧ Text.legible (readings new) = Text.legible (readings old)) :
    Kept false parent old new := by
  intro hwithin
  obtain ⟨hproper, hreading⟩ := h hwithin
  refine ⟨hproper, fun hbare => absurd hbare hread, hreading, ?_, ?_, hgroups⟩
  · intro front rest haccepts
    obtain ⟨n, hn, hobject⟩ := hobject
    have hmem : label n ∈ front ++ labels old ++ rest := by
      simp only [List.mem_append]
      exact .inl (.inr (List.mem_map_of_mem hn))
    have hkind := kindOf_eq_other haccepts hmem hobject
    rw [accepts_other hkind] at haccepts ⊢
    refine ⟨?_, by simp⟩
    have hnot := haccepts.1
    simp only [List.mem_append, not_or] at hnot ⊢
    exact ⟨⟨hnot.1.1, htext⟩, hnot.2⟩
  · exact fun hpr => absurd (hwithin.bare hpr) hread

end EquationExport.Omml
