import EquationExport.Omml.Repair.Rule
import EquationExport.Proofs.Omml.Faithful

/-!
# Fractions that stand firm

A fraction can be lost with what holds it: with markup of another kind, with a run, with a property, or with
scripts that lack a slot. It stands firm if nothing of that holds it. A change of some nodes into others
retains what is firm if there is a firm node among the new ones whenever there was one among the old ones, and
if the slots of scripts stay what they were.
-/

namespace EquationExport.Omml

open Xml Xml.Node Repair

/-! ### Firm nodes -/

/-- The slots of a construct that sets scripts, as the schema lists them. -/
def scriptSlots (node : Node) : List Text := "e" :: requiredSlots node

/-- The slots among the children of a construct: what is equation markup and no group of properties. -/
def slotLabels (l : List Node) : List Text := (labels (l.filter (·.isMath))).filter fun name => !name.endsWith "Pr"

/-- A construct that sets scripts has its slots, each once and in order, and nothing else but properties. -/
def hasScriptSlots (node : Node) : Bool := !node.isScript || slotLabels node.children == scriptSlots node

/-- An element of equation markup that is no run and no group of properties. -/
def isHolder (node : Node) : Bool := node.isMath && !node.isRun && !(label node).endsWith "Pr"

mutual

/-- A fraction, or an element that holds one which cannot be lost with it. -/
def isFirm : Node → Bool
  | .element tag text children tail =>
    let node : Node := .element tag text children tail
    isHolder node && (node.isNamed "f" || (hasScriptSlots node && anyFirm children))
  | _ => false

/-- One of the nodes is firm. -/
def anyFirm : List Node → Bool
  | [] => false
  | node :: rest => isFirm node || anyFirm rest

end

/-- The fragment holds a fraction that stands firm. -/
def Fragment.holdsFirm (f : Fragment) : Bool := anyFirm f.children

variable {node : Node} {a b c a' b' l l' : List Node} {name : Text}

theorem isFirm_element (tag : Tag) (text : Option Text) (children : List Node) (tail : Text) :
    isFirm (element tag text children tail) =
      (isHolder (element tag text children tail) && ((element tag text children tail).isNamed "f" ||
        (hasScriptSlots (element tag text children tail) && anyFirm children))) := by
  rw [isFirm]

theorem anyFirm_nil : anyFirm [] = false := by rw [anyFirm]

theorem anyFirm_cons (node : Node) (l : List Node) : anyFirm (node :: l) = (isFirm node || anyFirm l) := by
  rw [anyFirm]

theorem anyFirm_iff : anyFirm l = true ↔ ∃ n ∈ l, isFirm n = true := by
  induction l with
  | nil => simp [anyFirm_nil]
  | cons node l ih => simp [anyFirm_cons, ih]

theorem anyFirm_append : anyFirm (a ++ b) = true ↔ anyFirm a = true ∨ anyFirm b = true := by
  simp only [anyFirm_iff, List.mem_append, or_and_right, exists_or]

theorem anyFirm_singleton : anyFirm [node] = isFirm node := by
  rw [anyFirm_cons, anyFirm_nil, Bool.or_false]

/-- A firm node is a holder. -/
theorem isHolder_of_isFirm (h : isFirm node = true) : isHolder node = true := by
  cases node with
  | element => exact (Bool.and_eq_true_iff.1 (isFirm_element .. ▸ h)).1
  | comment | instruction => simp [isFirm] at h

theorem isMath_of_isFirm (h : isFirm node = true) : node.isMath = true := by
  have hholder := isHolder_of_isFirm h
  simp only [isHolder, Bool.and_eq_true] at hholder
  exact hholder.1.1

theorem isFirm_of_isRun (h : node.isRun = true) : isFirm node = false := by
  rw [← Bool.not_eq_true]
  intro hfirm
  simpa [isHolder, h] using isHolder_of_isFirm hfirm

theorem isFirm_of_group (h : (label node).endsWith "Pr" = true) : isFirm node = false := by
  rw [← Bool.not_eq_true]
  intro hfirm
  simpa [isHolder, h] using isHolder_of_isFirm hfirm

/-- A firm node is a fraction or holds a firm node. -/
theorem anyFirm_children (h : isFirm node = true) (hfraction : node.isNamed "f" = false) :
    hasScriptSlots node = true ∧ anyFirm node.children = true := by
  cases node with
  | element =>
    rw [isFirm_element, hfraction, Bool.false_or, Bool.and_eq_true, Bool.and_eq_true] at h
    exact h.2
  | comment | instruction => simp [isFirm] at h

/-- What is firm is or holds a fraction. -/
theorem exists_fraction_of_anyFirm (l : List Node) (h : anyFirm l = true) :
    (subtrees l).any (·.isNamed "f") = true := by
  induction l using forest_induction with
  | nil => rw [anyFirm_nil] at h; cases h
  | element tag text children tail rest ihc ihr =>
    rw [subtrees_cons, subtree, List.cons_append, List.any_cons, List.any_append, Bool.or_eq_true, Bool.or_eq_true]
    rw [anyFirm_cons, Bool.or_eq_true] at h
    rcases h with h | h
    · cases hfraction : (element tag text children tail).isNamed "f" with
      | true => exact .inl rfl
      | false => exact .inr (.inl (ihc (anyFirm_children h hfraction).2))
    · exact .inr (.inr (ihr h))
  | comment content tail rest ih | instruction target content tail rest ih =>
    rw [subtrees_cons, List.any_append, Bool.or_eq_true]
    rw [anyFirm_cons, Bool.or_eq_true] at h
    exact .inr (ih (h.resolve_left (by simp [isFirm])))

/-! ### Slots -/

/-- The names of the slots of scripts. -/
def slotNames : List Text := Text.ofStrings ["e", "sub", "sup"]

@[simp] theorem slotLabels_nil : slotLabels [] = [] := rfl

theorem slotLabels_append (a b : List Node) : slotLabels (a ++ b) = slotLabels a ++ slotLabels b := by
  simp [slotLabels]

/-- The labels of nodes depend on their names. -/
theorem slotLabels_of_name? {m n : Node} (h : m.name? = n.name?) : slotLabels [m] = slotLabels [n] := by
  have hmath : m.isMath = n.isMath := by rw [isMath, isMath, h]
  have hlabel : label m = label n := by rw [label, label, localPart?, localPart?, h]
  simp only [slotLabels, List.filter_cons, hmath]
  split
  · simp [hlabel]
  · rfl

theorem isMath_of_isNamed (h : node.isNamed name = true) : node.isMath = true := by
  unfold isNamed at h
  unfold isMath
  cases hname : node.name? with
  | none => simp [hname] at h
  | some n => simpa [hname] using (by simpa [hname] using h : n.localPart = name ∧ n.space = some mathNamespace).2

theorem slotLabels_of_isNamed (h : node.isNamed name = true) (hgroup : name.endsWith "Pr" = false) :
    slotLabels [node] = [name] := by
  simp [slotLabels, isMath_of_isNamed h, label_eq_of_isNamed h, hgroup]

theorem slotLabels_of_group (h : (label node).endsWith "Pr" = true) : slotLabels [node] = [] := by
  simp only [slotLabels, List.filter_cons]
  split
  · simp [h]
  · rfl

theorem scriptSlots_subset (node : Node) : ∀ x ∈ scriptSlots node, x ∈ slotNames := by
  unfold scriptSlots requiredSlots
  split
  · decide
  · split <;> decide

/-! ### Changes that retain what is firm -/

/-- There is a firm node whenever there was one, and slots of scripts are what they were. -/
structure Retains (old new : List Node) : Prop where
  firm : anyFirm old = true → anyFirm new = true
  slots : (∀ x ∈ slotLabels old, x ∈ slotNames) → slotLabels new = slotLabels old

namespace Retains

theorem refl (a : List Node) : Retains a a := ⟨id, fun _ => rfl⟩

theorem trans (hab : Retains a b) (hbc : Retains b c) : Retains a c := by
  refine ⟨fun h => hbc.firm (hab.firm h), fun h => ?_⟩
  have hb := hab.slots h
  rw [hbc.slots (by rwa [hb]), hb]

theorem append (ha : Retains a a') (hb : Retains b b') : Retains (a ++ b) (a' ++ b') := by
  refine ⟨fun h => ?_, fun h => ?_⟩
  · rw [anyFirm_append] at h ⊢
    exact h.imp ha.firm hb.firm
  · simp only [slotLabels_append, List.mem_append] at h ⊢
    rw [ha.slots fun x hx => h x (.inl hx), hb.slots fun x hx => h x (.inr hx)]

theorem cons {n n' : Node} (hn : Retains [n] [n']) (hb : Retains b b') : Retains (n :: b) (n' :: b') := hn.append hb

/-- Among the old nodes is one that is no slot of scripts. -/
theorem of_object {old new : List Node} {n : Node} (hn : n ∈ old) (hnamed : n.isNamed name = true)
    (hname : name ∉ slotNames) (hgroup : name.endsWith "Pr" = false)
    (h : anyFirm old = true → anyFirm new = true) : Retains old new := by
  refine ⟨h, fun hslots => absurd (hslots name ?_) hname⟩
  obtain ⟨front, rest, rfl⟩ := List.append_of_mem hn
  rw [← List.singleton_append, slotLabels_append, slotLabels_append, slotLabels_of_isNamed hnamed hgroup]
  simp

/-- A change of the children of an element, whose tag keeps its name. -/
theorem inside {tag tag' : Tag} {text text' : Option Text} {tail tail' : Text} (hname : tag'.name = tag.name)
    (h : Retains l l') : Retains [element tag text l tail] [element tag' text' l' tail'] := by
  have hname? : (element tag' text' l' tail').name? = (element tag text l tail).name? := congrArg some hname
  refine ⟨fun hfirm => ?_, fun _ => slotLabels_of_name? hname?⟩
  have hnamed : ∀ x, (element tag' text' l' tail').isNamed x = (element tag text l tail).isNamed x := by
    intro x
    rw [isNamed, isNamed, hname?]
  have hholder : isHolder (element tag' text' l' tail') = isHolder (element tag text l tail) := by
    simp only [isHolder, isMath, isRun, label, localPart?, hnamed, hname?]
  rw [anyFirm_singleton, isFirm_element, Bool.and_eq_true, Bool.or_eq_true, Bool.and_eq_true] at hfirm ⊢
  rw [hholder, hnamed]
  refine hfirm.imp_right (.imp_right fun hrest => ⟨?_, h.firm hrest.2⟩)
  have hslots := hrest.1
  have hscript : (element tag' text' l' tail').isScript = (element tag text l tail).isScript := by
    simp only [isScript, isOneOf, funext hnamed]
  have hscriptSlots : scriptSlots (element tag' text' l' tail') = scriptSlots (element tag text l tail) := by
    simp only [scriptSlots, requiredSlots, hnamed]
  simp only [hasScriptSlots, hscript, hscriptSlots, children_element, Bool.or_eq_true, beq_iff_eq] at hslots ⊢
  refine hslots.imp_right fun hslots => ?_
  rw [h.slots fun x hx => scriptSlots_subset _ x (by rwa [← hslots]), hslots]

/-- A change of the children of a group of properties, whatever it is. -/
theorem inGroup {tag : Tag} {text : Option Text} {tail : Text} (h : isPropertyGroup tag = true) :
    Retains [element tag text l tail] [element tag text l' tail] := by
  refine ⟨fun hfirm => ?_, fun _ => slotLabels_of_name? rfl⟩
  rw [anyFirm_singleton, isFirm_of_group (show (label (element tag text l tail)).endsWith "Pr" = true from h)] at hfirm
  cases hfirm

/-- Nodes are left out of a whole tree, if outside groups of properties each may be left out. -/
theorem pruneAll {keep : Option Tag → Node → Bool}
    (hdrop : ∀ tag n, (∀ t ∈ tag, isPropertyGroup t = false) → keep tag n = false → Retains [n] []) (nodes : List Node) :
    ∀ tag, (∀ t ∈ tag, isPropertyGroup t = false) → Retains nodes (pruneAll keep tag nodes) := by
  induction nodes using forest_induction with
  | nil => exact fun tag _ => refl []
  | element name text children tail rest ihc ihr =>
    intro tag h
    rw [Xml.pruneAll]
    split
    · refine cons ?_ (ihr tag h)
      rw [Node.prune]
      cases hgroup : isPropertyGroup name with
      | true => exact inGroup hgroup
      | false => exact inside rfl (ihc (some name) fun t ht => Option.mem_some.1 ht ▸ hgroup)
    · next hkeep =>
      rw [Bool.not_eq_true] at hkeep
      exact append (hdrop tag _ h hkeep) (ihr tag h)
  | comment content tail rest ih | instruction target content tail rest ih =>
    intro tag h
    rw [Xml.pruneAll]
    split
    · exact cons (refl _) (ih tag h)
    · next hkeep =>
      rw [Bool.not_eq_true] at hkeep
      exact append (hdrop tag _ h hkeep) (ih tag h)

end Retains

/-! ### Constructs -/

/-- An element of this name is firm if it holds what is firm. -/
def IsPlainHolder (name : Text) : Prop :=
  name ∉ Text.ofStrings ["r", "f", "sSub", "sSup", "sSubSup"] ∧ name.endsWith "Pr" = false

instance (name : Text) : Decidable (IsPlainHolder name) := inferInstanceAs (Decidable (_ ∧ _))

theorem isFirm_of_isPlainHolder (h : IsPlainHolder name) (hnamed : node.isNamed name = true) :
    isFirm node = anyFirm node.children := by
  obtain ⟨hname, hgroup⟩ := h
  simp only [Text.ofStrings, List.map_cons, List.map_nil, List.mem_cons, List.not_mem_nil, or_false, not_or] at hname
  obtain ⟨hr, hf, hsub, hsup, hboth⟩ := hname
  have hother : ∀ x, name ≠ x → node.isNamed x = false := fun x hx =>
    isNamed_of_isNamed hnamed (beq_eq_false_iff_ne.2 hx)
  have hscript : node.isScript = false := by
    simp only [isScript, isOneOf, scriptNames, List.any_cons, List.any_nil, Bool.or_false]
    rw [hother _ hsub, hother _ hsup, hother _ hboth]
    rfl
  have hholder : isHolder node = true := by
    rw [isHolder, isMath_of_isNamed hnamed, isRun, hother _ hr, label_eq_of_isNamed hnamed, hgroup]
    rfl
  cases node with
  | element tag text children tail =>
    rw [isFirm_element, hholder, hother _ hf, hasScriptSlots, hscript]
    simp
  | comment | instruction => cases hnamed

theorem isFirm_mathElement (h : IsPlainHolder name) (l : List Node) : isFirm (mathElement name l) = anyFirm l :=
  isFirm_of_isPlainHolder h (isNamed_mathElement_self ..)

theorem isFirm_delimiter (opening closing : Text) (content : List Node) :
    isFirm (delimiter opening closing content) = anyFirm content := by
  have hgroup : isFirm (mathElement "dPr" [valueElement "begChr" opening, valueElement "endChr" closing]) = false :=
    isFirm_of_group (show ("dPr" : Text).endsWith "Pr" = true by decide)
  rw [delimiter_eq, isFirm_mathElement (by decide), anyFirm_cons, anyFirm_singleton, hgroup,
    isFirm_mathElement (by decide), Bool.false_or]

theorem isFirm_fraction (num den : List Node) : isFirm (fraction num den) = true := by
  rw [fraction, mathElement, isFirm_element]
  rfl

/-- Setting a property. -/
theorem Retains.setProperty {group : Text} (hgroup : group.endsWith "Pr" = true) (key value : Text) (node : Node) :
    Retains [node] [node.setProperty group key value] := by
  cases node with
  | element tag text l tail =>
    have hdrop : ∀ g : Node, label g = group → anyFirm [g] = false ∧ slotLabels [g] = [] := fun g hg =>
      ⟨by rw [anyFirm_singleton, isFirm_of_group (by rwa [hg])], slotLabels_of_group (by rwa [hg])⟩
    rcases setProperty_cases group key value tag text l tail with
      ⟨-, heq⟩ | ⟨front, gtag, gtext, old, gtail, rest, new, rfl, hnamed, -, -, heq⟩
    · rw [heq]
      refine inside rfl ⟨fun h => ?_, fun _ => ?_⟩
      · rw [anyFirm_cons, h, Bool.or_true]
      · rw [← List.singleton_append, slotLabels_append, (hdrop _ (label_mathElement ..)).2, List.nil_append]
    · rw [heq]
      have hlabel : label (element gtag gtext old gtail) = group := label_eq_of_isNamed hnamed
      have hold := hdrop _ hlabel
      have hnew := hdrop (element gtag gtext new gtail) hlabel
      refine inside rfl ((refl front).append (.cons ⟨fun h => ?_, fun _ => by rw [hnew.2, hold.2]⟩ (refl rest)))
      rw [hold.1] at h
      cases h
  | comment | instruction => exact refl _

/-- An n-ary operator holds what is firm in its limits and in its body. -/
theorem isFirm_nary {operator : Text} {sub sup base : List Node} {location : Option Text}
    (h : anyFirm sub = true ∨ anyFirm sup = true ∨ anyFirm base = true) :
    isFirm (nary operator sub sup base location) = true := by
  have hset : ∀ (condition : Bool) (key value : Text) (n : Node),
      Retains [n] [setPropertyIf condition "naryPr" key value n] := by
    intro condition key value n
    cases condition with
    | false => exact .refl _
    | true => exact .setProperty (by decide) key value n
  have hsigned : anyFirm [signedNary operator sub sup base] = true := by
    rw [anyFirm_singleton, signedNary, isFirm_mathElement (by decide), anyFirm_cons, anyFirm_cons, anyFirm_cons,
      anyFirm_singleton, isFirm_mathElement (show IsPlainHolder "sub" by decide),
      isFirm_mathElement (show IsPlainHolder "sup" by decide), isFirm_mathElement (show IsPlainHolder "e" by decide),
      Bool.or_eq_true, Bool.or_eq_true, Bool.or_eq_true]
    exact .inr h
  rw [← anyFirm_singleton, nary, setProperty_chr]
  exact (((hset _ _ _ _).trans (hset _ _ _ _)).trans (hset _ _ _ _)).firm hsigned

end EquationExport.Omml
