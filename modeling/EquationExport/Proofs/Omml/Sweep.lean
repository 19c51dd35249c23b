import EquationExport.Omml.Repair.Sweep
import EquationExport.Proofs.Xml.Forest
import Mathlib.Logic.Function.Iterate

/-!
# What a sweep keeps

A property that elements do not lose when the containers in them are repaired holds everywhere after a sweep if it
did before and if it holds in what the rule builds. A sweep that changes something has found a span in a container
of the fragment; one that finds none leaves the fragment as it is.
-/

namespace EquationExport.Omml.Repair

open Xml Xml.Node

variable {P : Node → Prop} {rule : SpanRule}

/-! ### One node after the other -/

theorem sweepNodes_cons (rule : SpanRule) (node : Node) (rest : List Node) :
    sweepNodes rule (node :: rest) = ((sweepNode rule node).1 :: (sweepNodes rule rest).1,
      (sweepNode rule node).2 || (sweepNodes rule rest).2) := rfl

/-- What becomes of the children of an element, and whether that is a change. -/
def sweepInside (rule : SpanRule) (tag : Tag) (text : Option Text) (children : List Node) (tail : Text) :
    List Node × Bool :=
  if (element tag text children tail).isContainer then
    ((repairContainer rule children (sweepNodes rule children).1).1,
      (repairContainer rule children (sweepNodes rule children).1).2 || (sweepNodes rule children).2)
  else sweepNodes rule children

theorem sweepNode_element (rule : SpanRule) (tag : Tag) (text : Option Text) (children : List Node) (tail : Text) :
    sweepNode rule (element tag text children tail) =
      (element tag text (sweepInside rule tag text children tail).1 tail,
        (sweepInside rule tag text children tail).2) := by
  by_cases h : (element tag text children tail).isContainer = true
  · simp [sweepNode, sweepInside, h]
  · simp [sweepNode, sweepInside, h]

theorem tag?_sweepNode (rule : SpanRule) (node : Node) : (sweepNode rule node).1.tag? = node.tag? := by
  cases node with
  | element tag text children tail => rw [sweepNode_element]; rfl
  | comment | instruction => rfl

theorem name?_sweepNode (rule : SpanRule) (node : Node) : (sweepNode rule node).1.name? = node.name? := by
  rw [name?, name?, tag?_sweepNode]

theorem sweepNodes_eq_map (rule : SpanRule) (l : List Node) :
    (sweepNodes rule l).1 = l.map fun node => (sweepNode rule node).1 := by
  induction l with
  | nil => rfl
  | cons node l ih => rw [sweepNodes_cons, ih, List.map_cons]

/-! ### Properties of names -/

/-- What the rule builds among objects that have a property everywhere has it everywhere. -/
def Builds (P : Node → Prop) (rule : SpanRule) : Prop :=
  ∀ seen span objects, rule seen = some span → Everywhere P seen → Everywhere P objects →
    Everywhere P [span.build objects]

theorem everywhere_collapse {span : Span} {children : List Node}
    (hbuild : ∀ objects, Everywhere P objects → Everywhere P [span.build objects]) (h : Everywhere P children) :
    Everywhere P (span.collapse children) := by
  refine everywhere_append.2 ⟨h.sublist (List.take_sublist ..), everywhere_cons.2 ⟨hbuild _ ?_, ?_⟩⟩
  · exact h.sublist ((List.take_sublist ..).trans (List.drop_sublist ..))
  · exact h.sublist (List.drop_sublist ..)

theorem everywhere_exhaust (hrule : Builds P rule) (fuel : Nat) (seen out : List Node) (hseen : Everywhere P seen)
    (hout : Everywhere P out) : Everywhere P (exhaust rule fuel seen out).1 := by
  induction fuel generalizing seen out with
  | zero => exact hout
  | succ fuel ih =>
    simp only [exhaust]
    cases hspan : rule seen with
    | none => exact hout
    | some span =>
      have hbuild : ∀ objects, Everywhere P objects → Everywhere P [span.build objects] :=
        fun objects => hrule seen span objects hspan hseen
      exact ih _ _ (everywhere_collapse hbuild hseen) (everywhere_collapse hbuild hout)

/-- An element that has the property has it after the containers in it are repaired. -/
def Survives (P : Node → Prop) (rule : SpanRule) : Prop :=
  ∀ tag text children tail, P (element tag text children tail) →
    P (element tag text (sweepInside rule tag text children tail).1 tail)

theorem survives_of_local (hP : Local P) : Survives P rule := fun _ _ _ _ => hP _ _ _ _ _

theorem everywhere_sweepNodes (hP : Survives P rule) (hrule : Builds P rule) :
    ∀ nodes, Everywhere P nodes → Everywhere P (sweepNodes rule nodes).1 := by
  intro nodes
  induction nodes using forest_induction with
  | nil => exact id
  | element tag text children tail rest ihc ihr =>
    intro h
    obtain ⟨hnode, hrest⟩ := everywhere_cons.1 h
    obtain ⟨hroot, hbelow⟩ := everywhere_singleton.1 hnode
    rw [sweepNodes_cons, sweepNode_element]
    refine everywhere_cons.2 ⟨everywhere_singleton.2 ⟨hP _ _ _ _ hroot, ?_⟩, ihr hrest⟩
    simp only [Node.children, sweepInside]
    split
    · exact everywhere_exhaust hrule _ _ _ hbelow (ihc hbelow)
    · exact ihc hbelow
  | comment content tail rest ih | instruction target content tail rest ih =>
    intro h
    obtain ⟨hnode, hrest⟩ := everywhere_cons.1 h
    exact everywhere_cons.2 ⟨hnode, ih hrest⟩

theorem everywhere_sweepFor (hP : Survives P rule) (hrule : Builds P rule) (sweeps : Nat) (f : Fragment)
    (h : Everywhere P f.children) : Everywhere P (sweepFor rule sweeps f).1.children := by
  induction sweeps generalizing f with
  | zero => exact h
  | succ sweeps ih =>
    simp only [sweepFor]
    split
    · exact ih _ (everywhere_exhaust hrule _ _ _ h (everywhere_sweepNodes hP hrule _ h))
    · exact h

/-! ### Changes -/

theorem repairContainer_snd (rule : SpanRule) (seen out : List Node) (hnil : rule [] = none) :
    (repairContainer rule seen out).2 = (rule seen).isSome := by
  unfold repairContainer
  cases seen with
  | nil => simp [exhaust, hnil]
  | cons node seen =>
    rw [List.length_cons, exhaust]
    cases rule (node :: seen) <;> rfl

/-- A change inside comes from a container that stands inside. -/
theorem sweepNodes_snd_iff (hnil : rule [] = none) (nodes : List Node) :
    (sweepNodes rule nodes).2 = true ↔
      ∃ container ∈ subtrees nodes, container.isContainer = true ∧ (rule container.children).isSome := by
  induction nodes using forest_induction with
  | nil => simp [sweepNodes]
  | element tag text children tail rest ihc ihr =>
    have hinside : (sweepInside rule tag text children tail).2 = true ↔
        ∃ container ∈ subtree (element tag text children tail),
          container.isContainer = true ∧ (rule container.children).isSome := by
      simp only [subtree, List.mem_cons, exists_eq_or_imp, children_element, ← ihc]
      by_cases hcontainer : (element tag text children tail).isContainer = true
      · simp [sweepInside, hcontainer, repairContainer_snd rule _ _ hnil]
      · simp [sweepInside, hcontainer]
    simp only [sweepNodes_cons, sweepNode_element, Bool.or_eq_true, hinside, ihr, subtrees_cons, List.mem_append,
      or_and_right, exists_or]
  | comment content tail rest ih | instruction target content tail rest ih =>
    simp only [sweepNodes_cons, sweepNode, Bool.false_or, ih, subtrees_cons, subtree, List.mem_append,
      List.mem_singleton, or_and_right, exists_or, exists_eq_left]
    simp [isContainer, isOneOf, isNamed, name?, tag?]

/-- A sweep changes a fragment exactly if it finds a span in one of its containers. -/
theorem sweep_snd_iff (hnil : rule [] = none) {f : Fragment} :
    (sweep rule f).2 = true ↔ ∃ container ∈ f.containers, (rule container.children).isSome := by
  simp only [sweep, Bool.or_eq_true, repairContainer_snd rule _ _ hnil, sweepNodes_snd_iff hnil,
    Fragment.containers, List.mem_cons, exists_eq_or_imp, List.mem_filter, Fragment.nodes, and_assoc]
  rfl

theorem sweepUntilStable_snd (rule : SpanRule) (f : Fragment) : (sweepUntilStable rule f).2 = (sweep rule f).2 := by
  rw [sweepUntilStable, maxSweeps, sweepFor]
  cases h : (sweep rule f).2 <;> simp [h]

theorem sweepUntilStable_snd_iff (hnil : rule [] = none) {f : Fragment} :
    (sweepUntilStable rule f).2 = true ↔ ∃ container ∈ f.containers, (rule container.children).isSome := by
  rw [sweepUntilStable_snd, sweep_snd_iff hnil]

theorem sweepUntilStable_of_unchanged {f : Fragment} (h : (sweepUntilStable rule f).2 = false) :
    sweepUntilStable rule f = (f, false) := by
  rw [sweepUntilStable_snd] at h
  rw [sweepUntilStable, maxSweeps, sweepFor]
  simp [h]

/-! ### One sweep after the other -/

theorem repairContainer_of_unchanged {seen out : List Node} (h : (repairContainer rule seen out).2 = false) :
    (repairContainer rule seen out).1 = out := by
  unfold repairContainer at h ⊢
  cases seen with
  | nil => rfl
  | cons node seen =>
    rw [List.length_cons, exhaust] at h ⊢
    cases hspan : rule (node :: seen) with
    | none => rfl
    | some span => simp [hspan] at h

theorem sweepNodes_of_unchanged {nodes : List Node} (h : (sweepNodes rule nodes).2 = false) : (sweepNodes rule nodes).1 = nodes := by
  induction nodes using forest_induction with
  | nil => rfl
  | element tag text children tail rest ihc ihr =>
    rw [sweepNodes_cons, sweepNode_element, Bool.or_eq_false_iff] at h
    obtain ⟨hinside, hrest⟩ := h
    rw [sweepNodes_cons, sweepNode_element, ihr hrest]
    have hchildren : (sweepInside rule tag text children tail).1 = children := by
      unfold sweepInside at hinside ⊢
      by_cases hcontainer : (element tag text children tail).isContainer = true
      · rw [if_pos hcontainer] at hinside ⊢
        obtain ⟨hunchanged, hbelow⟩ := Bool.or_eq_false_iff.1 hinside
        exact (repairContainer_of_unchanged hunchanged).trans (ihc hbelow)
      · rw [if_neg hcontainer] at hinside ⊢
        exact ihc hinside
    rw [hchildren]
  | comment content tail rest ih | instruction target content tail rest ih =>
    rw [sweepNodes_cons, Bool.or_eq_false_iff] at h
    rw [sweepNodes_cons, ih h.2]
    rfl

theorem sweep_of_unchanged {f : Fragment} (h : (sweep rule f).2 = false) : (sweep rule f).1 = f := by
  obtain ⟨hcontainer, hbelow⟩ := Bool.or_eq_false_iff.1 h
  have hchildren : (sweep rule f).1.children = f.children :=
    (repairContainer_of_unchanged hcontainer).trans (sweepNodes_of_unchanged hbelow)
  exact congrArg (fun children => ({ f with children := children } : Fragment)) hchildren

/-- Bounded sweeps are sweeps one after the other, since those after one that changes nothing change nothing. -/
theorem sweepFor_eq_iterate (rule : SpanRule) (n : Nat) (f : Fragment) :
    (sweepFor rule n f).1 = (fun f => (sweep rule f).1)^[n] f := by
  induction n generalizing f with
  | zero => rfl
  | succ n ih =>
    rw [sweepFor, Function.iterate_succ_apply]
    cases hchanged : (sweep rule f).2 with
    | true =>
      simp only [hchanged, if_true]
      exact ih (sweep rule f).1
    | false =>
      have hfixed : (sweep rule f).1 = f := sweep_of_unchanged hchanged
      simp only [hchanged, Bool.false_eq_true, if_false]
      rw [hfixed, Function.iterate_fixed hfixed]

end EquationExport.Omml.Repair
