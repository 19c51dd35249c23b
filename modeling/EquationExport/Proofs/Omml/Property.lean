import EquationExport.Omml.Construct
import EquationExport.Proofs.Xml.Forest

/-!
# Names and properties of constructs

The name of an element of equation markup under the steps that change it, and what setting a property does
to the children of a construct and to those of its group of properties.
-/

namespace EquationExport

open Xml Xml.Node

/-! ### Names -/

namespace Xml.Node

theorem byName_isNamed (name : Text) (b : Bool) : ByName (fun n => n.isNamed name = b) := by
  intro n m h hn
  simpa [isNamed, ← h] using hn

@[simp] theorem isNamed_withChildren (node : Node) (l : List Node) (name : Text) :
    (node.withChildren l).isNamed name = node.isNamed name := by
  simp [isNamed]

@[simp] theorem isNamed_setAttribute (node : Node) (key : Name) (value name : Text) :
    (node.setAttribute key value).isNamed name = node.isNamed name := by
  simp [isNamed]

/-- An element has one name. -/
theorem isNamed_of_isNamed {node : Node} {name other : Text} (h : node.isNamed name = true)
    (hne : (name == other) = false) : node.isNamed other = false := by
  unfold isNamed at h ⊢
  cases hname : node.name? with
  | none => rfl
  | some n =>
    simp only [hname, Option.any_some, Bool.and_eq_true, beq_iff_eq] at h
    simp [h.1, hne]

theorem isOneOf_of_isNamed {node : Node} {name : Text} {names : List Text} (h : node.isNamed name = true)
    (hname : name ∉ names) : node.isOneOf names = false := by
  rw [isOneOf, List.any_eq_false]
  intro other hother
  have hne : (name == other) = false := by
    rw [beq_eq_false_iff_ne]
    rintro rfl
    exact hname hother
  simp [isNamed_of_isNamed h hne]

end Xml.Node

namespace Omml

theorem isNamed_mathElement (name other : Text) (l : List Node) :
    (mathElement name l).isNamed other = (name == other) := by
  simp [mathElement, Node.isNamed, Node.name?, Node.tag?, mathName]

theorem isNamed_mathElement_self (name : Text) (l : List Node) : (mathElement name l).isNamed name = true := by
  rw [isNamed_mathElement, beq_self_eq_true]

@[simp] theorem children_mathElement (name : Text) (l : List Node) : (mathElement name l).children = l := rfl

/-! ### What has a text -/

theorem isRun_of_glyphs {node : Node} (h : node.glyphs ≠ []) : node.isRun = true := by
  rw [← Bool.not_eq_false]
  intro hrun
  simp [glyphs, runText?, hrun, Text.trim, Text.trimStart, Text.trimEnd] at h

theorem isTall_of_glyphs {node : Node} (h : node.glyphs ≠ []) : node.isTall = false :=
  isOneOf_of_isNamed (isRun_of_glyphs h) (by decide)

/-! ### The first of its kind -/

/-- No node is of a kind, or there is a first one. -/
theorem exists_first (p : Node → Bool) (l : List Node) :
    (∀ n ∈ l, p n = false) ∨ ∃ front n rest, l = front ++ n :: rest ∧ p n = true ∧ ∀ m ∈ front, p m = false := by
  induction l with
  | nil => exact .inl (by simp)
  | cons node l ih =>
    cases hp : p node with
    | true => exact .inr ⟨[], node, l, rfl, hp, by simp⟩
    | false =>
      rcases ih with hnone | ⟨front, n, rest, rfl, hn, hfront⟩
      · exact .inl (by simpa [hp] using hnone)
      · exact .inr ⟨node :: front, n, rest, rfl, hn, by simpa [hp] using hfront⟩

theorem modifyFirst_append {p : Node → Bool} (f : Node → Node) {n : Node} (front rest : List Node)
    (hfront : ∀ m ∈ front, p m = false) (hn : p n = true) :
    modifyFirst p f (front ++ n :: rest) = front ++ f n :: rest := by
  induction front with
  | nil => simp [modifyFirst, hn]
  | cons m front ih =>
    have hm : p m = false := hfront m (by simp)
    simp [modifyFirst, hm, ih fun k hk => hfront k (by simp [hk])]

/-- The first node of a kind is changed in its place, or there is none. -/
theorem modifyFirst_cases (p : Node → Bool) (f : Node → Node) (l : List Node) :
    (modifyFirst p f l = l ∧ ∀ n ∈ l, p n = false) ∨
      ∃ front n rest, l = front ++ n :: rest ∧ p n = true ∧ (∀ m ∈ front, p m = false) ∧
        modifyFirst p f l = front ++ f n :: rest := by
  rcases exists_first p l with hnone | ⟨front, n, rest, rfl, hn, hfront⟩
  · refine .inl ⟨?_, hnone⟩
    induction l with
    | nil => rfl
    | cons node l ih =>
      rw [modifyFirst, hnone node (by simp), ih fun n hn => hnone n (by simp [hn])]
      rfl
  · exact .inr ⟨front, n, rest, rfl, hn, hfront, modifyFirst_append f front rest hfront hn⟩

theorem everywhere_modifyFirst {P : Node → Prop} {p : Node → Bool} {f : Node → Node} {l : List Node}
    (hf : ∀ n, p n = true → Everywhere P [n] → Everywhere P [f n]) (h : Everywhere P l) :
    Everywhere P (modifyFirst p f l) := by
  rcases modifyFirst_cases p f l with ⟨heq, -⟩ | ⟨front, n, rest, rfl, hp, -, heq⟩
  · rwa [heq]
  · obtain ⟨hfront, hrest⟩ := everywhere_append.1 h
    obtain ⟨hn, hrest⟩ := everywhere_cons.1 hrest
    rw [heq]
    exact everywhere_append.2 ⟨hfront, everywhere_cons.2 ⟨hf n hp hn, hrest⟩⟩

/-- A new property is put between those that are there. -/
theorem insertOrdered_cases (order : List Text) (name : Text) (new : Node) (properties : List Node) :
    ∃ front rest, properties = front ++ rest ∧ insertOrdered order name new properties = front ++ new :: rest := by
  let after := (properties.reverse.takeWhile fun p => !standsBefore order name p).reverse
  have hsuffix : after <:+ properties := by
    rw [← List.reverse_prefix, List.reverse_reverse]
    exact List.takeWhile_prefix _
  obtain ⟨front, hfront⟩ := hsuffix
  have hlen : front.length = properties.length - after.length := by
    rw [← hfront, List.length_append, Nat.add_sub_cancel]
  refine ⟨front, after, hfront.symm, ?_⟩
  calc insertOrdered order name new properties
      = properties.take (properties.length - after.length) ++ new :: after := rfl
    _ = (front ++ after).take front.length ++ new :: after := by rw [hlen, hfront]
    _ = front ++ new :: after := by rw [List.take_left]

theorem everywhere_insertOrdered {P : Node → Prop} {new : Node} {properties : List Node} (order : List Text)
    (name : Text) (hnew : Everywhere P [new]) (h : Everywhere P properties) :
    Everywhere P (insertOrdered order name new properties) := by
  obtain ⟨front, rest, rfl, heq⟩ := insertOrdered_cases order name new properties
  obtain ⟨hfront, hrest⟩ := everywhere_append.1 h
  rw [heq]
  exact everywhere_append.2 ⟨hfront, everywhere_cons.2 ⟨hnew, hrest⟩⟩

/-! ### Setting a property -/

/-- A property with a value. -/
def valueElement (name value : Text) : Node := .element ⟨mathName name, [], [⟨valueName, value⟩]⟩ none [] []

theorem isNamed_valueElement (name value other : Text) : (valueElement name value).isNamed other = (name == other) := by
  simp [valueElement, Node.isNamed, Node.name?, Node.tag?, mathName]

theorem slot?_eq_none_iff {node : Node} {name : Text} :
    node.slot? name = none ↔ ∀ n ∈ node.children, n.isNamed name = false := by
  simp [slot?]

@[simp] theorem isNamed_setProperty (node : Node) (group name value other : Text) :
    (node.setProperty group name value).isNamed other = node.isNamed other := by
  have hgroup : (node.ensureGroup group).isNamed other = node.isNamed other := by
    unfold ensureGroup
    split
    · rfl
    · exact isNamed_withChildren ..
  rw [setProperty, isNamed_withChildren, ensureProperty, isNamed_withChildren, hgroup]

/-- The properties of a group after one was set: it was there and its value is new, or it is new itself. -/
def SetIn (name value : Text) (old new : List Node) : Prop :=
  (∃ front property rest, old = front ++ property :: rest ∧ property.isNamed name = true ∧
    (∀ m ∈ front, m.isNamed name = false) ∧ new = front ++ property.setAttribute valueName value :: rest) ∨
  ∃ front rest, old = front ++ rest ∧ (∀ n ∈ old, n.isNamed name = false) ∧
    new = front ++ valueElement name value :: rest

/-- What becomes of a group of properties when one of them is set. -/
theorem exists_setIn (name value group : Text) (tag : Tag) (text : Option Text) (l : List Node) (tail : Text) :
    ∃ new, SetIn name value l new ∧
      let g : Node := .element tag text l tail
      let ready := if (g.slot? name).isSome then g
        else g.withChildren (insertOrdered (schemaOrder group) name (mathElement name []) g.children)
      ready.withChildren (modifyFirst (·.isNamed name) (·.setAttribute valueName value) ready.children) =
        .element tag text new tail := by
  rcases exists_first (·.isNamed name) l with hnone | ⟨front, property, rest, rfl, hproperty, hfront⟩
  · have hslot : (element tag text l tail).slot? name = none := slot?_eq_none_iff.2 hnone
    obtain ⟨front, rest, rfl, hinsert⟩ := insertOrdered_cases (schemaOrder group) name (mathElement name []) l
    have hnamed : (mathElement name []).isNamed name = true := by simp [isNamed_mathElement]
    have hset := modifyFirst_append (p := (·.isNamed name)) (·.setAttribute valueName value) front rest
      (fun m hm => hnone m (by simp [hm])) hnamed
    refine ⟨front ++ valueElement name value :: rest, .inr ⟨front, rest, rfl, hnone, rfl⟩, ?_⟩
    simp only [hslot, Option.isSome_none, Bool.false_eq_true, if_false, children_element, withChildren_element,
      hinsert, hset]
    rfl
  · have hslot : ((element tag text (front ++ property :: rest) tail).slot? name).isSome = true := by
      rw [Option.isSome_iff_ne_none, ne_eq, slot?_eq_none_iff]
      intro hnone
      have := hnone property (by simp)
      simp [hproperty] at this
    refine ⟨_, .inl ⟨front, property, rest, rfl, hproperty, hfront, rfl⟩, ?_⟩
    simp only [hslot, if_true, children_element, withChildren_element, modifyFirst_append _ front rest hfront hproperty]

/-- The children of a construct after a property was set: a new group in front, or the first group changed. -/
theorem setProperty_cases (group name value : Text) (tag : Tag) (text : Option Text) (l : List Node) (tail : Text) :
    ((∀ n ∈ l, n.isNamed group = false) ∧ (element tag text l tail).setProperty group name value =
      element tag text (mathElement group [valueElement name value] :: l) tail) ∨
    ∃ front gtag gtext old gtail rest new, l = front ++ element gtag gtext old gtail :: rest ∧
      (element gtag gtext old gtail).isNamed group = true ∧ (∀ m ∈ front, m.isNamed group = false) ∧ SetIn name value old new ∧
      (element tag text l tail).setProperty group name value =
        element tag text (front ++ element gtag gtext new gtail :: rest) tail := by
  -- both steps change the first group: it is made ready, then the property in it is set
  have hset : ∀ front gtag gtext old gtail rest, (element gtag gtext old gtail).isNamed group = true →
      (∀ m ∈ front, m.isNamed group = false) →
      (element tag text l tail).ensureGroup group =
        element tag text (front ++ element gtag gtext old gtail :: rest) tail →
      ∃ new, SetIn name value old new ∧ (element tag text l tail).setProperty group name value =
        element tag text (front ++ element gtag gtext new gtail :: rest) tail := by
    intro front gtag gtext old gtail rest hgroup hfront hensure
    obtain ⟨new, hnew, heq⟩ := exists_setIn name value group gtag gtext old gtail
    refine ⟨new, hnew, ?_⟩
    rw [setProperty, ensureProperty, hensure]
    simp only [withChildren_element, children_element]
    rw [modifyFirst_append _ front rest hfront hgroup, modifyFirst_append _ front rest hfront]
    · exact congrArg (fun g => element tag text (front ++ g :: rest) tail) heq
    · split
      · exact hgroup
      · exact hgroup
  rcases exists_first (·.isNamed group) l with hnone | ⟨front, g, rest, rfl, hgroup, hfront⟩
  · have hslot : (element tag text l tail).slot? group = none := slot?_eq_none_iff.2 hnone
    have hgroup : (element ⟨mathName group, [], []⟩ none [] []).isNamed group = true := by
      rw [← mathElement, isNamed_mathElement_self]
    obtain ⟨new, hnew, heq⟩ := hset [] ⟨mathName group, [], []⟩ none [] [] l hgroup (by simp)
      (by simp [ensureGroup, hslot, mathElement])
    refine .inl ⟨hnone, ?_⟩
    rcases hnew with ⟨front, property, rest, hold, -, -, -⟩ | ⟨front, rest, hold, -, rfl⟩
    · simp at hold
    · obtain ⟨rfl, rfl⟩ := List.append_eq_nil_iff.1 hold.symm
      exact heq
  · cases g with
    | element gtag gtext old gtail =>
      have hslot : ((element tag text (front ++ element gtag gtext old gtail :: rest) tail).slot? group).isSome := by
        rw [Option.isSome_iff_ne_none, ne_eq, slot?_eq_none_iff]
        intro hnone
        have := hnone (element gtag gtext old gtail) (by simp)
        simp [hgroup] at this
      obtain ⟨new, hnew, heq⟩ := hset front gtag gtext old gtail rest hgroup hfront (by simp [ensureGroup, hslot])
      exact .inr ⟨front, gtag, gtext, old, gtail, rest, new, rfl, hgroup, hfront, hnew, heq⟩
    | comment | instruction => cases hgroup

variable {P : Node → Prop}

/-- What is built by setting a property has what its new elements and the construct have. -/
theorem everywhere_setProperty (hP : Local P) {node : Node} {group name : Text} (value : Text)
    (hgroup : P (mathElement group [])) (hname : P (mathElement name []))
    (hvalue : ∀ n, P n → P (n.setAttribute valueName value)) (h : Everywhere P [node]) :
    Everywhere P [node.setProperty group name value] := by
  have hensured : Everywhere P [node.ensureGroup group] := by
    unfold ensureGroup
    split
    · exact h
    · obtain ⟨hroot, hbelow⟩ := everywhere_singleton.1 h
      refine hP.withChildren hroot (everywhere_cons.2 ⟨?_, hbelow⟩)
      exact everywhere_singleton.2 ⟨hgroup, everywhere_nil⟩
  have hthere : Everywhere P [node.ensureProperty group name] := by
    obtain ⟨hroot, hbelow⟩ := everywhere_singleton.1 hensured
    refine hP.withChildren hroot (everywhere_modifyFirst (fun g _ hg => ?_) hbelow)
    obtain ⟨hgroot, hgbelow⟩ := everywhere_singleton.1 hg
    split
    · exact hg
    · refine hP.withChildren hgroot (everywhere_insertOrdered _ _ ?_ hgbelow)
      exact everywhere_singleton.2 ⟨hname, everywhere_nil⟩
  obtain ⟨hroot, hbelow⟩ := everywhere_singleton.1 hthere
  refine hP.withChildren hroot (everywhere_modifyFirst (fun g _ hg => ?_) hbelow)
  obtain ⟨hgroot, hgbelow⟩ := everywhere_singleton.1 hg
  refine hP.withChildren hgroot (everywhere_modifyFirst (fun n _ hn => ?_) hgbelow)
  obtain ⟨hnroot, hnbelow⟩ := everywhere_singleton.1 hn
  exact everywhere_singleton.2 ⟨hvalue n hnroot, by simpa using hnbelow⟩

end Omml

end EquationExport
