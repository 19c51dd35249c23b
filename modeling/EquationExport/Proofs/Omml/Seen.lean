import EquationExport.Proofs.Omml.Property
import EquationExport.Proofs.Omml.Span
import EquationExport.Proofs.Omml.Sweep
import Mathlib.Data.List.Forall2

/-!
# What a rule sees of an object

The rules that look for spans go by the names of objects, by the texts of runs and by the signs of n-ary operators,
and by nothing else. A sweep that repairs what is inside an object leaves all of these, as long as no container stands
in a run. So what a rule finds in a container before the containers inside are repaired, it finds after that, and where
it finds nothing it finds nothing.
-/

namespace EquationExport.Omml

open Xml Xml.Node Repair

variable {rule : SpanRule} {node old new : Node} {l : List Node}

/-! ### Nodes that look alike -/

/-- The two nodes look alike to the rules that look for spans. -/
structure SeenAlike (old new : Node) : Prop where
  name : new.name? = old.name?
  text : new.runText? = old.runText?
  sign : ∀ glyphs, isNaryOf glyphs new = isNaryOf glyphs old

namespace SeenAlike

theorem refl (node : Node) : SeenAlike node node := ⟨rfl, rfl, fun _ => rfl⟩

theorem glyphs (h : SeenAlike old new) : new.glyphs = old.glyphs := by rw [Node.glyphs, Node.glyphs, h.text]

theorem isNamed (h : SeenAlike old new) (name : Text) : new.isNamed name = old.isNamed name := by
  rw [Node.isNamed, Node.isNamed, h.name]

theorem isRun (h : SeenAlike old new) : new.isRun = old.isRun := h.isNamed "r"

theorem isOneOf (h : SeenAlike old new) (names : List Text) : new.isOneOf names = old.isOneOf names := by
  rw [Node.isOneOf, Node.isOneOf]
  exact congrArg (List.any names) (funext h.isNamed)

theorem isTall (h : SeenAlike old new) : new.isTall = old.isTall := h.isOneOf tallConstructs

theorem isOnePlus (h : SeenAlike old new) : Repair.isOnePlus new = Repair.isOnePlus old := by
  rw [Repair.isOnePlus, Repair.isOnePlus, h.text]

end SeenAlike

theorem any_isTall_of_seenAlike {seen out : List Node} (h : List.Forall₂ SeenAlike seen out) :
    out.any (·.isTall) = seen.any (·.isTall) := by
  induction h with
  | nil => rfl
  | cons hn _ ih => rw [List.any_cons, List.any_cons, hn.isTall, ih]

theorem levelAfter?_of_seenAlike {seen out : List Node} (h : List.Forall₂ SeenAlike seen out) (opening closing : Text)
    (d : Nat) : levelAfter? opening closing d out = levelAfter? opening closing d seen := by
  induction h generalizing d with
  | nil => rfl
  | cons hn _ ih =>
    simp only [levelAfter?, hn.glyphs]
    cases d with
    | zero => simp only [ih]
    | succ d => simp only [ih]

/-! ### Rules -/

/-- Where objects look alike, the rule finds a span or does not. -/
def GoesByLooks (rule : SpanRule) : Prop :=
  ∀ ⦃seen out : List Node⦄, List.Forall₂ SeenAlike seen out → (rule out).isSome = (rule seen).isSome

theorem goesByLooks_integralSpan (i : Nat) : GoesByLooks (integralSpan i) := by
  intro seen out h
  induction h generalizing i with
  | nil => rfl
  | cons hn _ ih =>
    simp only [integralSpan, hn.glyphs]
    split
    · rfl
    · exact ih (i + 1)

theorem goesByLooks_braceSpan (i : Nat) : GoesByLooks (braceSpan i) := by
  intro seen out h
  induction h generalizing i with
  | nil => rfl
  | cons hbrace hrest ih =>
    cases hrest with
    | nil => rfl
    | cons hmatrix hrest =>
      have hnext := ih (i + 1)
      simp only [braceSpan, hbrace.glyphs, hmatrix.isOneOf]
      split
      · split <;> split <;> rfl
      · exact hnext

theorem denominatorLength?_of_seenAlike {seen out : List Node} (h : List.Forall₂ SeenAlike seen out) (close : Text) :
    denominatorLength? close out = denominatorLength? close seen := by
  cases h with
  | nil => rfl
  | cons hfirst h =>
    cases h with
    | nil => simp only [denominatorLength?, hfirst.isOnePlus]
    | cons hsecond h =>
      cases h with
      | nil => simp only [denominatorLength?, hfirst.isOnePlus, hfirst.sign, hsecond.glyphs, hsecond.isRun]
      | cons hthird _ =>
        simp only [denominatorLength?, hfirst.isOnePlus, hfirst.sign, hsecond.sign, hsecond.glyphs, hsecond.isRun,
          hthird.glyphs, hthird.isRun]

theorem goesByLooks_fractionSpan (i : Nat) : GoesByLooks (fractionSpan i) := by
  intro seen out h
  induction h generalizing i with
  | nil => rfl
  | @cons a b seen out hopening hrest ih =>
    have hnext := ih (i + 1)
    simp only [fractionSpan, hopening.glyphs]
    cases closing? a.glyphs with
    | none => exact hnext
    | some close =>
      cases hrest with
      | nil => exact hnext
      | cons hintegral hrest =>
        cases hrest with
        | nil => exact hnext
        | cons htext hrest =>
          simp only [hintegral.sign, htext.isRun, denominatorLength?_of_seenAlike hrest]
          split
          · rfl
          · exact hnext

theorem goesByLooks_promotionSpan (i : Nat) : GoesByLooks (promotionSpan i) := by
  intro seen out h
  induction h generalizing i with
  | nil => rfl
  | @cons a b seen out hopening hrest ih =>
    cases hrest with
    | nil => rfl
    | cons htall hrest =>
      cases hrest with
      | nil => rfl
      | cons hlast hrest =>
        have hnext := ih (i + 1)
        simp only [promotionSpan, hopening.glyphs, htall.isTall, hlast.isRun, hlast.glyphs]
        split
        · split
          · rfl
          · exact hnext
        · exact hnext

/-! ### Sweeps -/

theorem isNamed_sweepNode (rule : SpanRule) (node : Node) (name : Text) :
    (sweepNode rule node).1.isNamed name = node.isNamed name := by
  rw [isNamed, isNamed, name?_sweepNode]

theorem filter_sweepNodes (rule : SpanRule) (name : Text) (l : List Node) :
    (sweepNodes rule l).1.filter (·.isNamed name) =
      (l.filter (·.isNamed name)).map fun node => (sweepNode rule node).1 := by
  rw [sweepNodes_eq_map, List.filter_map]
  congr 2
  exact funext fun node => isNamed_sweepNode rule node name

theorem children_sweepNode (rule : SpanRule) (h : node.isContainer = false) :
    (sweepNode rule node).1.children = (sweepNodes rule node.children).1 := by
  cases node with
  | element tag text children tail =>
    rw [sweepNode_element, children_element, sweepInside, h]
    rfl
  | comment | instruction => rfl

/-- Neither a construct nor its group of properties is a container, so its properties stay as they are. -/
theorem property?_sweepNode (rule : SpanRule) {group : Text} (name : Text) (h : node.isContainer = false)
    (hgroup : group ∉ containerNames) : (sweepNode rule node).1.property? group name = node.property? group name := by
  have hproperties : ∀ g ∈ node.children.filter (·.isNamed group),
      (sweepNode rule g).1.children.filter (·.isNamed name) =
        (g.children.filter (·.isNamed name)).map fun p => (sweepNode rule p).1 := by
    intro g hg
    rw [children_sweepNode rule (isOneOf_of_isNamed (List.mem_filter.1 hg).2 hgroup), filter_sweepNodes]
  have hattribute : ∀ p : Node, (sweepNode rule p).1.attribute? valueName = p.attribute? valueName := by
    intro p
    rw [Node.attribute?, Node.attribute?, tag?_sweepNode]
  rw [property?, property?, children_sweepNode rule h, filter_sweepNodes, List.flatMap_map,
    List.flatMap_congr hproperties, ← List.map_flatMap, List.head?_map, Option.bind_map]
  exact congrArg _ (funext hattribute)

/-- No container stands in the node if it is a run. -/
def IsPlainRun (node : Node) : Prop := node.isRun = true → Everywhere (fun n => n.isContainer = false) node.children

instance (node : Node) : Decidable (IsPlainRun node) :=
  inferInstanceAs (Decidable (node.isRun = true → Everywhere (fun n => n.isContainer = false) node.children))

/-- Where no containers stand, a sweep changes nothing. -/
theorem sweepNodes_of_no_container (h : Everywhere (fun n => n.isContainer = false) l) : (sweepNodes rule l).1 = l := by
  induction l using forest_induction with
  | nil => rfl
  | element tag text children tail rest ihc ihr =>
    obtain ⟨hnode, hrest⟩ := everywhere_cons.1 h
    obtain ⟨hroot, hbelow⟩ := everywhere_singleton.1 hnode
    rw [sweepNodes_cons, ihr hrest, sweepNode_element, sweepInside, hroot]
    simp only [Bool.false_eq_true, if_false, ihc hbelow]
  | comment content tail rest ih | instruction target content tail rest ih =>
    rw [sweepNodes_cons, ih (everywhere_cons.1 h).2]
    rfl

theorem seenAlike_sweepNode (rule : SpanRule) (h : IsPlainRun node) : SeenAlike node (sweepNode rule node).1 := by
  refine ⟨name?_sweepNode rule node, ?_, fun glyphs => ?_⟩
  · cases hrun : node.isRun with
    | false => rw [runText?, runText?, isRun, isNamed_sweepNode, ← isRun, hrun]; rfl
    | true =>
      cases node with
      | element tag text children tail =>
        have hcontainer : (element tag text children tail).isContainer = false :=
          isOneOf_of_isNamed hrun (by decide)
        rw [sweepNode_element, sweepInside, hcontainer]
        simp only [Bool.false_eq_true, if_false]
        rw [sweepNodes_of_no_container (l := children) (h hrun)]
      | comment | instruction => rfl
  · rw [isNaryOf, isNaryOf, isNamed_sweepNode]
    cases hnary : node.isNamed "nary" with
    | false => rfl
    | true => rw [operatorOf, operatorOf, property?_sweepNode rule _ (isOneOf_of_isNamed hnary (by decide)) (by decide)]

theorem forall₂_seenAlike_sweepNodes (rule : SpanRule) (h : Everywhere IsPlainRun l) :
    List.Forall₂ SeenAlike l (sweepNodes rule l).1 := by
  rw [sweepNodes_eq_map, List.forall₂_map_right_iff, List.forall₂_same]
  exact fun node hnode => seenAlike_sweepNode rule (everywhere_singleton.1 (h.of_mem hnode)).1

end EquationExport.Omml
