import EquationExport.Omml.Repair.Style
import EquationExport.Proofs.Omml.Reading
import Mathlib.Tactic.SplitIfs

/-!
# Trees that follow the schema

Which children an element may have, as far as reading depends on it: text stands in runs alone, the slots of
scripts and of n-ary operators are there once and in order, and a group of properties holds no object that is
read. `Proper` collects what is asked of each node of a tree.
-/

namespace EquationExport.Omml

open Xml Xml.Node Repair

/-! ### Labels -/

/-- The local part of the name of an element; empty for what is no element. -/
def label (node : Node) : Text := node.localPart?.getD []

/-- The local parts of the names of several elements. -/
def labels (l : List Node) : List Text := l.map label

@[simp] theorem labels_nil : labels [] = [] := rfl

@[simp] theorem labels_cons (node : Node) (l : List Node) : labels (node :: l) = label node :: labels l := rfl

@[simp] theorem labels_append (a b : List Node) : labels (a ++ b) = labels a ++ labels b := List.map_append ..

@[simp] theorem label_mathElement (name : Text) (l : List Node) : label (mathElement name l) = name := rfl

@[simp] theorem isMath_mathElement (name : Text) (l : List Node) : (mathElement name l).isMath = true := by
  simp [mathElement, isMath, name?, tag?, mathName]

theorem label_eq_of_isNamed {node : Node} {name : Text} (h : node.isNamed name = true) : label node = name := by
  unfold isNamed at h
  unfold label localPart?
  cases hname : node.name? with
  | none => simp [hname] at h
  | some n =>
    have hn : n.localPart = name ∧ n.space = some mathNamespace := by simpa [hname] using h
    simpa [hname] using hn.1

/-- An element of equation markup is told by its label. -/
theorem isNamed_eq_label {node : Node} (h : node.isMath = true) (name : Text) :
    node.isNamed name = (label node == name) := by
  unfold isMath at h
  unfold isNamed label localPart?
  cases hname : node.name? with
  | none => simp [hname] at h
  | some n =>
    simp only [hname, Option.any_some, beq_iff_eq] at h
    simp [h]

theorem isOneOf_eq_label {node : Node} (h : node.isMath = true) (names : List Text) :
    node.isOneOf names = names.any (label node == ·) := by
  have hname : node.isNamed = fun name => label node == name := funext (isNamed_eq_label h)
  rw [isOneOf, hname]

theorem label_withChildren (node : Node) (l : List Node) : label (node.withChildren l) = label node := by
  simp [label, localPart?]

/-! ### What an element accepts -/

/-- How an element holds its children. -/
inductive Kind where
  | text
  | run
  | script (slots : List Text)
  | nary
  | other
  deriving DecidableEq

/-- How an element with the given label holds its children. -/
def kindOf (name : Text) : Kind :=
  if name = "t" then .text
  else if name = "r" then .run
  else if name = "sSub" then .script ["e", "sub"]
  else if name = "sSup" then .script ["e", "sup"]
  else if name = "sSubSup" then .script ["e", "sub", "sup"]
  else if name = "nary" then .nary
  else .other

/-- The properties that are read as glyphs. -/
def glyphProperties : List Text := ["chr", "begChr", "endChr"]

/-- What no slot `e` may hold: the group that holds delimiters, and the properties that are read as glyphs. -/
def hiddenLabels : List Text := "dPr" :: glyphProperties

/--
An element with a label may hold children with the given labels. In the strict sense a slot `e` holds no
properties that are read.
-/
def Accepts (strict : Bool) (name : Text) (children : List Text) : Prop :=
  match kindOf name with
  | .text => children = []
  | .run => ∀ child ∈ children, child = "rPr" ∨ child = "t"
  | .script slots => ∃ group, children = group ++ slots ∧
      (group = [] ∨ ∃ properties, group = [properties] ∧ properties.endsWith "Pr" = true)
  | .nary => children.Sublist ["naryPr", "sub", "sup", "e"]
  | .other => ("t" : Text) ∉ children ∧ (strict = true → name = "e" → ∀ hidden ∈ hiddenLabels, hidden ∉ children)

theorem exists_group_iff {slots children : List Text} :
    (∃ group, children = group ++ slots ∧
      (group = [] ∨ ∃ properties, group = [properties] ∧ properties.endsWith "Pr" = true)) ↔
    children = slots ∨ (children.head?.any (·.endsWith "Pr") = true ∧ children.tail = slots) := by
  constructor
  · rintro ⟨group, rfl, rfl | ⟨properties, rfl, hends⟩⟩
    · exact .inl rfl
    · exact .inr ⟨hends, rfl⟩
  · rintro (rfl | ⟨hends, rfl⟩)
    · exact ⟨[], rfl, .inl rfl⟩
    · cases children with
      | nil => cases hends
      | cons properties children => exact ⟨[properties], rfl, .inr ⟨properties, rfl, hends⟩⟩

instance (strict : Bool) (name : Text) (children : List Text) : Decidable (Accepts strict name children) :=
  match h : kindOf name with
  | .text => decidable_of_iff (children = []) (by rw [Accepts, h])
  | .run => decidable_of_iff (∀ child ∈ children, child = "rPr" ∨ child = "t") (by rw [Accepts, h])
  | .script slots =>
    decidable_of_iff (children = slots ∨ (children.head?.any (·.endsWith "Pr") = true ∧ children.tail = slots))
      (by rw [Accepts, h]; exact exists_group_iff.symm)
  | .nary => decidable_of_iff (children.Sublist (Text.ofStrings ["naryPr", "sub", "sup", "e"])) (by rw [Accepts, h]; rfl)
  | .other =>
    decidable_of_iff (("t" : Text) ∉ children ∧ (strict = true → name = "e" → ∀ hidden ∈ hiddenLabels, hidden ∉ children))
      (by rw [Accepts, h])

/-- No run, n-ary operator or delimiter construct at any depth. -/
abbrev Bare (l : List Node) : Prop := Everywhere (fun n => n.isOneOf ["r", "nary", "d"] = false) l

/-- What is asked of each node. -/
structure Fit (strict : Bool) (node : Node) : Prop where
  isMath : node.isMath = true
  accepts : Accepts strict (label node) (labels node.children)
  /-- A group of properties holds nothing that is read. -/
  bare : (label node).endsWith "Pr" = true → Bare node.children
  /-- A property that is read is not the word `undefined`. -/
  defined : label node ∈ glyphProperties → isUndefined node = false

instance (strict : Bool) (node : Node) : Decidable (Fit strict node) :=
  decidable_of_iff (node.isMath = true ∧ Accepts strict (label node) (labels node.children) ∧
      ((label node).endsWith "Pr" = true → Bare node.children) ∧ (label node ∈ glyphProperties → isUndefined node = false))
    ⟨fun ⟨hmath, haccepts, hbare, hdefined⟩ => ⟨hmath, haccepts, hbare, hdefined⟩,
      fun ⟨hmath, haccepts, hbare, hdefined⟩ => ⟨hmath, haccepts, hbare, hdefined⟩⟩

/-- The node fits, and no surrogate stands in its text. -/
structure Proper (strict : Bool) (node : Node) : Prop extends Fit strict node where
  sound : Text.hasSurrogate (node.text?.getD []) = false

/-- Every node fits, and no surrogate stands in any text. -/
abbrev AllProper (strict : Bool) (l : List Node) : Prop := Everywhere (Proper strict) l

variable {strict : Bool} {node : Node} {l : List Node} {name : Text}

theorem Accepts.weaken (h : Accepts strict name (labels l)) : Accepts false name (labels l) := by
  unfold Accepts at h ⊢
  split <;> simp_all

theorem Proper.weaken (h : Proper strict node) : Proper false node where
  isMath := h.isMath
  accepts := h.accepts.weaken
  bare := h.bare
  defined := h.defined
  sound := h.sound

theorem Proper.isNamed_eq (h : Proper strict node) (name : Text) : node.isNamed name = (label node == name) :=
  isNamed_eq_label h.isMath name

/-- Other children that the element may hold. -/
theorem allProper_withChildren {l' : List Node} (h : AllProper strict [node])
    (haccepts : Accepts strict (label node) (labels l')) (hbare : (label node).endsWith "Pr" = true → Bare l')
    (hl : AllProper strict l') : AllProper strict [node.withChildren l'] := by
  have hroot := (everywhere_singleton.1 h).1
  cases node with
  | element tag text l tail =>
    exact everywhere_singleton.2 ⟨⟨⟨hroot.isMath, haccepts, hbare, hroot.defined⟩, hroot.sound⟩, hl⟩
  | comment | instruction => exact h

/-- An element whose name says nothing about reading is read as its children. -/
theorem reading_eq_readings_children (h : AllProper strict [node])
    (hlabel : label node ∉ Text.ofStrings ["t", "nary", "d"]) : reading node = readings node.children := by
  have hroot := (everywhere_singleton.1 h).1
  cases node with
  | element tag text children tail =>
    simp only [Text.ofStrings, List.map_cons, List.map_nil, List.mem_cons, List.not_mem_nil, or_false, not_or] at hlabel
    obtain ⟨ht, hnary, hd⟩ := hlabel
    rw [reading_element, readBefore, readAfter]
    simp [hroot.isNamed_eq, ht, hnary, hd]
  | comment | instruction => rfl

/-! ### Kinds -/

theorem kindOf_eq_text (h : kindOf name = .text) : name = "t" := by
  unfold kindOf at h
  split_ifs at h
  assumption

theorem kindOf_eq_run (h : kindOf name = .run) : name = "r" := by
  unfold kindOf at h
  split_ifs at h
  assumption

theorem kindOf_eq_nary (h : kindOf name = .nary) : name = "nary" := by
  unfold kindOf at h
  split_ifs at h
  assumption

theorem kindOf_eq_script {slots : List Text} (h : kindOf name = .script slots) :
    (name = "sSub" ∧ slots = Text.ofStrings ["e", "sub"]) ∨ (name = "sSup" ∧ slots = Text.ofStrings ["e", "sup"]) ∨
      (name = "sSubSup" ∧ slots = Text.ofStrings ["e", "sub", "sup"]) := by
  unfold kindOf at h
  split_ifs at h with _ _ hsub hsup hboth
  · exact .inl ⟨hsub, (Kind.script.inj h).symm⟩
  · exact .inr (.inl ⟨hsup, (Kind.script.inj h).symm⟩)
  · exact .inr (.inr ⟨hboth, (Kind.script.inj h).symm⟩)

theorem accepts_other {children : List Text} (h : kindOf name = .other) :
    Accepts strict name children ↔ ("t" : Text) ∉ children ∧
      (strict = true → name = "e" → ∀ hidden ∈ hiddenLabels, hidden ∉ children) := by
  simp only [Accepts, h]

/-- Text stands in runs alone. -/
theorem Accepts.text_not_mem {children : List Text} (h : Accepts strict name children) (hname : name ≠ "r") :
    ("t" : Text) ∉ children := by
  cases hkind : kindOf name with
  | text => simp only [Accepts, hkind] at h; simp [h]
  | run => exact absurd (kindOf_eq_run hkind) hname
  | script slots =>
    simp only [Accepts, hkind] at h
    obtain ⟨group, rfl, rfl | ⟨properties, rfl, hends⟩⟩ := h
    · rcases kindOf_eq_script hkind with ⟨-, rfl⟩ | ⟨-, rfl⟩ | ⟨-, rfl⟩ <;> decide
    · have hproperties : ("t" : Text) ≠ properties := by
        rintro rfl
        exact absurd hends (by decide)
      rcases kindOf_eq_script hkind with ⟨-, rfl⟩ | ⟨-, rfl⟩ | ⟨-, rfl⟩ <;>
        simpa [hproperties] using (by decide)
  | nary =>
    simp only [Accepts, hkind] at h
    exact fun hmem => absurd (h.subset hmem) (by decide)
  | other => exact ((accepts_other hkind).1 h).1

/-! ### Objects -/

/-- The label of an object: it names no text, no slot and no group of properties. -/
def IsObject (name : Text) : Prop :=
  name ∉ (["t", "rPr", "naryPr", "sub", "sup", "e"] : List Text) ∧ name.endsWith "Pr" = false

instance (name : Text) : Decidable (IsObject name) := inferInstanceAs (Decidable (_ ∧ _))

/-- Where an object stands, there may stand anything but text. -/
theorem kindOf_eq_other {children : List Text} {x : Text} (h : Accepts strict name children) (hx : x ∈ children)
    (hobject : IsObject x) : kindOf name = .other := by
  obtain ⟨hnone, hgroup⟩ := hobject
  simp only [List.mem_cons, List.not_mem_nil, or_false, not_or] at hnone
  obtain ⟨ht, hr, hn, hsub, hsup, he⟩ := hnone
  cases hkind : kindOf name with
  | text => simp only [Accepts, hkind] at h; simp [h] at hx
  | run =>
    simp only [Accepts, hkind] at h
    rcases h x hx with hx | hx
    · exact absurd hx hr
    · exact absurd hx ht
  | script slots =>
    simp only [Accepts, hkind] at h
    obtain ⟨group, rfl, hcases⟩ := h
    rcases List.mem_append.1 hx with hx | hx
    · rcases hcases with rfl | ⟨properties, rfl, hends⟩
      · cases hx
      · rw [List.mem_singleton] at hx
        rw [hx, hends] at hgroup
        cases hgroup
    · rcases kindOf_eq_script hkind with ⟨-, rfl⟩ | ⟨-, rfl⟩ | ⟨-, rfl⟩ <;>
        simp [Text.ofStrings, he, hsub, hsup] at hx
  | nary =>
    simp only [Accepts, hkind] at h
    have hmem := h.subset hx
    simp [hn, hsub, hsup, he] at hmem
  | other => rfl

end EquationExport.Omml
