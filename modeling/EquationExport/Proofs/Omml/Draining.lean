import EquationExport.Proofs.Omml.Concerns
import EquationExport.Proofs.Omml.Faithful
import EquationExport.Proofs.Omml.Seen
import EquationExport.Proofs.Omml.Settled

/-!
# What a sweep leaves

Each step of the repair of a container takes a run out of it, so the repair comes to an end, and it is not the bound on
its steps that ends it. What a sweep leaves in all containers then follows from three facts on the rule: what one step
leaves in the container, what it leaves in the containers that it builds, and what is known where no span is found.
These are stated of the objects before the containers inside are repaired, and hold of those after it, because a rule
sees no difference between the two.
-/

namespace EquationExport.Omml

open Xml Xml.Node Repair

variable {rule : SpanRule} {shape : Shape} {before after P : List Node → Prop} {node : Node} {l old new seen out : List Node}

/-! ### One container -/

/-- The rule finds spans of a shape, in which there is a run, and what it builds in their place is no run. -/
structure TakesRuns (rule : SpanRule) (shape : Shape) : Prop where
  covers : ∀ seen span, rule seen = some span → span.Covers 0 seen shape
  hasRun : ∀ old build, shape old build → ∃ n ∈ old, n.isRun = true
  isRun_build : ∀ old build objects, shape old build → (build objects).isRun = false

/-- A step of the repair of a container. -/
def Collapses (rule : SpanRule) (old new : List Node) : Prop := ∃ span, rule old = some span ∧ new = span.collapse old

theorem Faithful.takesRuns (h : Faithful rule shape) : TakesRuns rule shape := ⟨h.covers, h.hasRun, h.isRun_build⟩

namespace TakesRuns

variable (h : TakesRuns rule shape)
include h

/-- A span, and the objects with it collapsed. -/
theorem exists_of_some {span : Span} (hspan : rule seen = some span) :
    ∃ front old rest, seen = front ++ (old ++ rest) ∧ shape old span.build ∧
      span.start = front.length ∧ span.stop = front.length + old.length := by
  obtain ⟨front, old, rest, hseen, hstart, hstop, hshape⟩ := h.covers seen span hspan
  exact ⟨front, old, rest, hseen, hshape, by rw [hstart, Nat.zero_add], by rw [hstop, Nat.zero_add]⟩

theorem countP_lt (hstep : Collapses rule old new) : new.countP (·.isRun) < old.countP (·.isRun) := by
  obtain ⟨span, hspan, rfl⟩ := hstep
  obtain ⟨front, old, rest, rfl, hshape, hstart, hstop⟩ := h.exists_of_some hspan
  obtain ⟨n, hn, hrun⟩ := h.hasRun old span.build hshape
  have hpos : 0 < old.countP (·.isRun) := List.countP_pos_iff.2 ⟨n, hn, hrun⟩
  have hbuilt : (span.build old).isRun = false := h.isRun_build old span.build old hshape
  rw [Span.collapse_of_covers front old rest hstart hstop]
  simp only [List.countP_append, List.countP_cons, hbuilt, Bool.false_eq_true, if_false]
  omega

/-- The repair of a container comes to an end. -/
theorem wellFounded : WellFounded fun new old => Collapses rule old new := by
  have hmeasure : WellFounded (InvImage Nat.lt fun l : List Node => l.countP (·.isRun)) := InvImage.wf _ Nat.lt_wfRel.wf
  exact Subrelation.wf h.countP_lt hmeasure

theorem eq_none_of_countP (hruns : seen.countP (·.isRun) = 0) : rule seen = none := by
  rw [Option.eq_none_iff_forall_ne_some]
  intro span hspan
  have hlt := h.countP_lt ⟨span, hspan, rfl⟩
  omega

/-- More steps than there are runs change nothing. -/
theorem exhaust_eq_of_le {fuel fuel' : Nat} (hfuel : seen.countP (·.isRun) ≤ fuel) (hfuel' : seen.countP (·.isRun) ≤ fuel') :
    exhaust rule fuel seen out = exhaust rule fuel' seen out := by
  induction fuel generalizing fuel' seen out with
  | zero =>
    have hnone : rule seen = none := h.eq_none_of_countP (Nat.le_zero.1 hfuel)
    cases fuel' <;> simp [exhaust, hnone]
  | succ fuel ih =>
    cases hspan : rule seen with
    | none => cases fuel' <;> simp [exhaust, hspan]
    | some span =>
      have hlt := h.countP_lt ⟨span, hspan, rfl⟩
      cases fuel' with
      | zero => omega
      | succ fuel' =>
        have hrest : exhaust rule fuel (span.collapse seen) (span.collapse out) =
            exhaust rule fuel' (span.collapse seen) (span.collapse out) := ih (by omega) (by omega)
        simp only [exhaust, hspan, hrest]

end TakesRuns

theorem seenAlike_delimiter (opening closing : Text) (content content' : List Node) :
    SeenAlike (delimiter opening closing content) (delimiter opening closing content') := by
  rw [delimiter_eq, delimiter_eq]
  exact ⟨rfl, rfl, fun _ => rfl⟩

/-! ### Runs without containers -/

theorem concerns_isPlainRun : Concerns ["r"] IsPlainRun := by
  intro node hother hrun
  have hnamed : node.isNamed "r" = false := by simpa [isOneOf] using hother
  rw [isRun, hnamed] at hrun
  cases hrun

/-- A run without containers is as it was after a sweep. -/
theorem survives_isPlainRun (rule : SpanRule) : Survives IsPlainRun rule := by
  intro tag text children tail hplain hrun
  have hbelow : Everywhere (fun n => n.isContainer = false) children := hplain hrun
  have hcontainer : (element tag text children tail).isContainer = false := isContainer_of_isRun hrun
  rw [children_element, sweepInside, hcontainer]
  simpa [sweepNodes_of_no_container hbelow] using hbelow

/-! ### All containers -/

/-- The children of the node have the property if it is a container. -/
def InContainer (P : List Node → Prop) (node : Node) : Prop := node.isContainer = true → P node.children

theorem forall_containers_iff {f : Fragment} :
    (∀ c ∈ f.containers, P c.children) ↔ P f.children ∧ Everywhere (InContainer P) f.children := by
  simp only [Fragment.containers, List.mem_cons, forall_eq_or_imp, List.mem_filter, and_imp]
  rfl

theorem concerns_inContainer : Concerns containerNames (InContainer P) := by
  intro node hother hcontainer
  cases hother.symm.trans hcontainer

theorem everywhere_slot (name : Text) (hl : P l) (hinside : Everywhere (InContainer P) l) :
    Everywhere (InContainer P) [mathElement name l] := everywhere_singleton.2 ⟨fun _ => hl, hinside⟩

theorem everywhere_delimiter (opening closing : Text) {content : List Node} (hcontent : P content)
    (hinside : Everywhere (InContainer P) content) : Everywhere (InContainer P) [delimiter opening closing content] :=
  concerns_inContainer.delimiter (by decide) opening closing (everywhere_slot "e" hcontent hinside)

/-- The steps of the rule lead from the one property of containers to the other, where the rule finds nothing more. -/
structure Drains (rule : SpanRule) (shape : Shape) (before after : List Node → Prop) : Prop extends TakesRuns rule shape where
  alike : ∀ old build out, shape old build → List.Forall₂ SeenAlike old out → SeenAlike (build old) (build out)
  keeps : ∀ front old rest build, shape old build → before (front ++ (old ++ rest)) → before (front ++ build old :: rest)
  builds : ∀ front old rest build out, shape old build → before (front ++ (old ++ rest)) →
    List.Forall₂ SeenAlike old out → Everywhere (InContainer after) out → Everywhere (InContainer after) [build out]
  ends : ∀ l, before l → rule l = none → after l
  looks : ∀ seen out, List.Forall₂ SeenAlike seen out → after seen → after out

namespace Drains

variable (h : Drains rule shape before after)
include h

theorem exhaust (fuel : Nat) (hfuel : seen.countP (·.isRun) ≤ fuel) (halike : List.Forall₂ SeenAlike seen out)
    (hbefore : before seen) (hinside : Everywhere (InContainer after) out) :
    after (exhaust rule fuel seen out).1 ∧ Everywhere (InContainer after) (Repair.exhaust rule fuel seen out).1 := by
  induction fuel generalizing seen out with
  | zero => exact ⟨h.looks _ _ halike (h.ends seen hbefore (h.eq_none_of_countP (Nat.le_zero.1 hfuel))), hinside⟩
  | succ fuel ih =>
    rw [Repair.exhaust]
    cases hspan : rule seen with
    | none => exact ⟨h.looks _ _ halike (h.ends seen hbefore hspan), hinside⟩
    | some span =>
      have hlt := h.countP_lt ⟨span, hspan, rfl⟩
      obtain ⟨front, old, rest, rfl, hshape, hstart, hstop⟩ := h.exists_of_some hspan
      obtain ⟨front', out', rfl, hfront, hout⟩ := exists_append_of_forall₂ halike
      obtain ⟨old', rest', rfl, hold, hrest⟩ := exists_append_of_forall₂ hout
      have hseen := Span.collapse_of_covers front old rest hstart hstop
      have hcollapse : span.collapse (front' ++ (old' ++ rest')) = front' ++ span.build old' :: rest' :=
        Span.collapse_of_covers front' old' rest' (by rw [hstart, hfront.length_eq])
          (by rw [hstop, hfront.length_eq, hold.length_eq])
      obtain ⟨hinfront, hinout⟩ := everywhere_append.1 hinside
      obtain ⟨hinold, hinrest⟩ := everywhere_append.1 hinout
      have hbuilt : Everywhere (InContainer after) [span.build old'] :=
        h.builds front old rest span.build old' hshape hbefore hold hinold
      refine ih (by omega) ?_ ?_ ?_
      · rw [hseen, hcollapse]
        exact List.rel_append hfront (.cons (h.alike old span.build old' hshape hold) hrest)
      · rw [hseen]
        exact h.keeps front old rest span.build hshape hbefore
      · rw [hcollapse]
        exact everywhere_append.2 ⟨hinfront, everywhere_cons.2 ⟨hbuilt, hinrest⟩⟩

theorem repairContainer (halike : List.Forall₂ SeenAlike seen out) (hbefore : before seen)
    (hinside : Everywhere (InContainer after) out) :
    after (repairContainer rule seen out).1 ∧ Everywhere (InContainer after) (Repair.repairContainer rule seen out).1 :=
  h.exhaust seen.length List.countP_le_length halike hbefore hinside

theorem sweepNodes (hplain : Everywhere IsPlainRun l) (hbefore : Everywhere (InContainer before) l) :
    Everywhere (InContainer after) (sweepNodes rule l).1 := by
  induction l using forest_induction with
  | nil => exact everywhere_nil
  | element tag text children tail rest ihc ihr =>
    obtain ⟨hpnode, hprest⟩ := everywhere_cons.1 hplain
    obtain ⟨-, hpbelow⟩ := everywhere_singleton.1 hpnode
    obtain ⟨hnode, hrest⟩ := everywhere_cons.1 hbefore
    obtain ⟨hroot, hbelow⟩ := everywhere_singleton.1 hnode
    rw [sweepNodes_cons, sweepNode_element]
    refine everywhere_cons.2 ⟨everywhere_singleton.2 ?_, ihr hprest hrest⟩
    rw [sweepInside]
    split
    · next hcontainer =>
      obtain ⟨hafter, hinside⟩ := h.repairContainer (forall₂_seenAlike_sweepNodes rule hpbelow) (hroot hcontainer)
        (ihc hpbelow hbelow)
      exact ⟨fun _ => hafter, hinside⟩
    · next hcontainer => exact ⟨fun hc => absurd hc hcontainer, ihc hpbelow hbelow⟩
  | comment content tail rest ih | instruction target content tail rest ih =>
    obtain ⟨hnode, hrest⟩ := everywhere_cons.1 hbefore
    refine everywhere_cons.2 ⟨everywhere_singleton.2 ⟨fun hc => ?_, everywhere_nil⟩, ih (everywhere_cons.1 hplain).2 hrest⟩
    cases hc

/-- What one sweep leaves in all containers. -/
theorem sweep {f : Fragment} (hplain : Everywhere IsPlainRun f.children) (hbefore : ∀ c ∈ f.containers, before c.children) :
    ∀ c ∈ (sweep rule f).1.containers, after c.children := by
  obtain ⟨hroot, hbelow⟩ := forall_containers_iff.1 hbefore
  exact forall_containers_iff.2
    (h.repairContainer (forall₂_seenAlike_sweepNodes rule hplain) hroot (h.sweepNodes hplain hbelow))

end Drains

end EquationExport.Omml
