import EquationExport.Proofs.Omml.Redex
import EquationExport.Proofs.Omml.Sweep

/-!
# Sweeps keep what is read

A sweep finds its spans among the objects as they were, and collapses them among the objects as they are after
the repair of what is inside them. The two lists have the same runs, and every rule goes by runs, so each
collapse is a change that keeps what is read.
-/

namespace EquationExport.Omml

open Xml Xml.Node Repair

variable {rule : SpanRule} {shape : Shape} {parent : Text}

/-! ### Rules -/

/-- The node stands for another: it is the same if that is a run. -/
def StandsFor (old new : Node) : Prop := old.isRun = true → new = old

/-- The rule finds spans of a shape, in which there is a run, and what it builds in their place is read alike. -/
structure Faithful (rule : SpanRule) (shape : Shape) : Prop where
  covers : ∀ seen span, rule seen = some span → span.Covers 0 seen shape
  hasRun : ∀ old build, shape old build → ∃ n ∈ old, n.isRun = true
  isRun_build : ∀ old build objects, shape old build → (build objects).isRun = false
  kept : ∀ old build out parent, shape old build → List.Forall₂ StandsFor old out → IsSilent parent →
    Kept false parent out [build out]

/-- Without runs there is no span. -/
theorem Faithful.none_of_bare (hrule : Faithful rule shape) {l : List Node} (h : Bare l) : rule l = none := by
  rw [Option.eq_none_iff_forall_ne_some]
  intro span hspan
  obtain ⟨front, old, rest, rfl, -, -, hshape⟩ := hrule.covers l span hspan
  obtain ⟨n, hn, hrun⟩ := hrule.hasRun old span.build hshape
  have hbare : Bare [n] := h.of_mem (by simp [hn])
  rw [isRun, (isNamed_of_bare hbare).1] at hrun
  cases hrun

/-! ### One container -/

theorem Span.collapse_of_covers {span : Span} (front old rest : List Node) (hstart : span.start = front.length)
    (hstop : span.stop = front.length + old.length) :
    span.collapse (front ++ (old ++ rest)) = front ++ span.build old :: rest := by
  have hlength : span.stop - span.start = old.length := by omega
  have hdrop : (front ++ (old ++ rest)).drop span.stop = rest := by
    rw [hstop, ← List.append_assoc, ← List.length_append, List.drop_left]
  rw [Span.collapse, hlength, hdrop, hstart, List.take_left, List.drop_left, List.take_left]

/-- Nodes that are related to others one by one can be divided as those are. -/
theorem exists_append_of_forall₂ {R : Node → Node → Prop} {a b out : List Node} (h : List.Forall₂ R (a ++ b) out) :
    ∃ a' b', out = a' ++ b' ∧ List.Forall₂ R a a' ∧ List.Forall₂ R b b' := by
  refine ⟨out.take a.length, out.drop a.length, (List.take_append_drop ..).symm, ?_, ?_⟩
  · simpa using List.forall₂_take a.length h
  · simpa using List.forall₂_drop a.length h

theorem Kept.exhaust (hrule : Faithful rule shape) (hparent : IsSilent parent) (fuel : Nat) (seen out : List Node)
    (h : List.Forall₂ StandsFor seen out) : Kept false parent out (exhaust rule fuel seen out).1 := by
  induction fuel generalizing seen out with
  | zero => exact Kept.refl out
  | succ fuel ih =>
    rw [Repair.exhaust]
    cases hspan : rule seen with
    | none => exact Kept.refl out
    | some span =>
      obtain ⟨front, old, rest, rfl, hstart, hstop, hshape⟩ := hrule.covers seen span hspan
      rw [Nat.zero_add] at hstart hstop
      obtain ⟨front', out', rfl, hfront, hout⟩ := exists_append_of_forall₂ h
      obtain ⟨old', rest', rfl, hold, hrest⟩ := exists_append_of_forall₂ hout
      have hseen := Span.collapse_of_covers front old rest hstart hstop
      have hcollapse : span.collapse (front' ++ (old' ++ rest')) = front' ++ span.build old' :: rest' :=
        Span.collapse_of_covers front' old' rest' (by rw [hstart, hfront.length_eq])
          (by rw [hstop, hfront.length_eq, hold.length_eq])
      have hbuilt : StandsFor (span.build old) (span.build old') := by
        intro hrun
        rw [hrule.isRun_build old span.build old hshape] at hrun
        cases hrun
      have hnext : List.Forall₂ StandsFor (span.collapse (front ++ (old ++ rest)))
          (span.collapse (front' ++ (old' ++ rest'))) := by
        rw [hseen, hcollapse]
        exact List.rel_append hfront (.cons hbuilt hrest)
      have hstep : Kept false parent (front' ++ (old' ++ rest')) (span.collapse (front' ++ (old' ++ rest'))) := by
        rw [hcollapse]
        exact (Kept.refl front').append ((hrule.kept old span.build old' parent hshape hold hparent).append (Kept.refl rest'))
      exact hstep.trans (ih _ _ hnext)

/-! ### All containers -/

theorem isSilent_of_isContainer {node : Node} (h : node.isContainer = true) : IsSilent (label node) := by
  obtain ⟨name, hname, hnamed⟩ := List.any_eq_true.1 h
  have hall : ∀ name ∈ containerNames, IsSilent name := by decide
  rw [label_eq_of_isNamed hnamed]
  exact hall name hname

theorem isContainer_of_isRun {node : Node} (h : node.isRun = true) : node.isContainer = false :=
  isOneOf_of_isNamed h (by decide)

/-- Where there are no runs, a sweep changes nothing. -/
theorem sweepNodes_of_bare (hrule : Faithful rule shape) (nodes : List Node) (h : Bare nodes) :
    (sweepNodes rule nodes).1 = nodes := by
  induction nodes using forest_induction with
  | nil => rfl
  | element tag text children tail rest ihc ihr =>
    obtain ⟨hnode, hrest⟩ := everywhere_cons.1 h
    have hchildren : Bare children := (everywhere_singleton.1 hnode).2
    have hinside : (sweepInside rule tag text children tail).1 = children := by
      unfold sweepInside
      split
      · have hnone := hrule.none_of_bare hchildren
        unfold repairContainer
        cases children.length <;> simp [Repair.exhaust, hnone, ihc hchildren]
      · exact ihc hchildren
    rw [sweepNodes_cons, sweepNode_element, hinside, ihr hrest]
  | comment content tail rest ih | instruction target content tail rest ih =>
    rw [sweepNodes_cons, ih (everywhere_cons.1 h).2]
    rfl

/-- A sweep leaves the runs among some nodes as they are. -/
theorem standsFor_sweepNodes (hrule : Faithful rule shape) (nodes : List Node) (h : AllProper false nodes) :
    List.Forall₂ StandsFor nodes (sweepNodes rule nodes).1 := by
  induction nodes with
  | nil => exact .nil
  | cons node rest ih =>
    obtain ⟨hnode, hrest⟩ := everywhere_cons.1 h
    refine .cons (fun hrun => ?_) (ih hrest)
    cases node with
    | element tag text children tail =>
      have hchildren : Bare children := bare_children_of_isRun hnode hrun
      rw [sweepNode_element, sweepInside, isContainer_of_isRun hrun]
      simp [sweepNodes_of_bare hrule children hchildren]
    | comment | instruction => cases hrun

theorem Kept.sweepNodes (hrule : Faithful rule shape) (nodes : List Node) :
    ∀ parent, Kept false parent nodes (sweepNodes rule nodes).1 := by
  induction nodes using forest_induction with
  | nil => exact fun parent => Kept.refl []
  | element tag text children tail rest ihc ihr =>
    intro parent
    rw [sweepNodes_cons, sweepNode_element]
    refine Kept.cons (Kept.inside fun hwithin => ?_) (ihr parent)
    unfold sweepInside
    split
    · next hcontainer =>
      refine (ihc _).trans (Kept.exhaust hrule (isSilent_of_isContainer hcontainer) _ _ _ ?_) hwithin
      exact standsFor_sweepNodes hrule children hwithin.proper
    · exact ihc _ hwithin
  | comment content tail rest ih | instruction target content tail rest ih =>
    exact fun parent => Kept.cons (Kept.refl _) (ih parent)

/-! ### The fragment -/

theorem Kept.sweepFor (hrule : Faithful rule shape) (hparent : IsSilent parent) (sweeps : Nat) (f : Fragment) :
    Kept false parent f.children (sweepFor rule sweeps f).1.children := by
  induction sweeps generalizing f with
  | zero => exact Kept.refl _
  | succ sweeps ih =>
    have hsweep : Kept false parent f.children (sweep rule f).1.children := fun hwithin =>
      (Kept.sweepNodes hrule f.children parent).trans (Kept.exhaust hrule hparent _ _ _
        (standsFor_sweepNodes hrule f.children hwithin.proper)) hwithin
    simp only [Repair.sweepFor]
    split
    · exact hsweep.trans (ih _)
    · exact Kept.refl _

end EquationExport.Omml
