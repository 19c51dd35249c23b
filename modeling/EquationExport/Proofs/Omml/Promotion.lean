import EquationExport.Proofs.Omml.Partners

/-!
# Delimiters that are promoted

What promotion makes of the children of a container is a list of groups: nests of delimiters around one object, and
objects that stay by themselves. The rule takes delimiters for a pair if they stand on both sides of one tall object. If
the delimiters of the container are well nested, unlike ones that are taken for a pair are partners. Bars that are taken
for a pair need not be: the first may close a pair, and the last open one.
-/

namespace EquationExport.Omml

open Xml Xml.Node Repair

variable {seen out l : List Node} {group : Group} {groups : List Group} {span : Span}

/-! ### One container -/

namespace Group

/-- The node that a group becomes: its delimiters are read in `seen`, and its objects come from `out`. -/
def build (seen out : List Node) : Group → Node
  | one i => nodeAt out i
  | pair i inner j => delimiter (textAt seen i) (textAt seen j) [inner.build seen out]

/-- Only an object by itself has a text. -/
theorem exists_one_of_glyphs (h : (group.build seen out).glyphs ≠ []) : ∃ i, group = .one i := by
  cases group with
  | one i => exact ⟨i, rfl⟩
  | pair i inner j => exact absurd (glyphs_delimiter _ _ _) h

/-- A group that is tall is a nest. -/
theorem IsProper.isNest (h : group.IsProper l) (htall : (group.build l l).isTall = true) : group.IsNest l := by
  rcases h with hnest | ⟨i, rfl⟩
  · exact hnest
  · by_contra hglyphs
    have hflat : (nodeAt l i).isTall = false := isTall_of_glyphs hglyphs
    exact absurd (htall.symm.trans hflat) (by decide)

end Group

/-- Three groups in a row become one, if the first and the third are objects by themselves. -/
def joinAt (start : Nat) (groups : List Group) : List Group :=
  match groups.drop start with
  | .one i :: inner :: .one j :: rest => groups.take start ++ .pair i inner j :: rest
  | _ => groups

/-- Groups are joined where the rule finds a span, at most `fuel` times. -/
def joinFor (l : List Node) : Nat → List Group → List Group
  | 0, groups => groups
  | fuel + 1, groups =>
    match promotionSpan 0 (groups.map (·.build l l)) with
    | none => groups
    | some span => joinFor l fuel (joinAt span.start groups)

/-- The groups that promotion makes of the children of a container. -/
def groupsOf (l : List Node) : List Group := joinFor l l.length ((List.range l.length).map .one)

/-- The objects of a container are grouped: each is in one group, in order. -/
structure Grouped (l : List Node) (groups : List Group) : Prop where
  proper : ∀ group ∈ groups, group.IsProper l
  places : groups.flatMap Group.places = List.range l.length

theorem map_nodeAt_range (l : List Node) : (List.range l.length).map (nodeAt l) = l := by
  refine List.ext_getElem (by simp) fun i hi hi' => ?_
  simp [nodeAt, hi']

theorem grouped_one (l : List Node) : Grouped l ((List.range l.length).map .one) where
  proper := by
    intro group hgroup
    obtain ⟨i, -, rfl⟩ := List.mem_map.1 hgroup
    exact .inr ⟨i, rfl⟩
  places := by
    rw [List.flatMap_map]
    exact List.flatMap_singleton' _

/-- Delimiters have a text, so those of a span stay by themselves until then. -/
theorem exists_of_promotionSpan (hspan : promotionSpan 0 (groups.map (·.build l l)) = some span) :
    ∃ before i inner j behind, groups = before ++ .one i :: inner :: .one j :: behind ∧ span.start = before.length ∧
      span.stop = before.length + 3 ∧ closing? (textAt l i) = some (textAt l j) ∧ (inner.build l l).isTall = true ∧
        span.build = fun objects => delimiter (textAt l i) (textAt l j) (interior objects) := by
  obtain ⟨front, old, rest, hseen, hstart, hstop, opening, tall, last, close, rfl, hpair, htall, hlast, hbuild⟩ :=
    covers_isStretched hspan
  obtain ⟨before, more, rfl, rfl, hmore⟩ := List.map_eq_append_iff.1 hseen
  obtain ⟨first, more₁, rfl, rfl, hmore₁⟩ := List.map_eq_cons_iff.1 hmore
  obtain ⟨inner, more₂, rfl, rfl, hmore₂⟩ := List.map_eq_cons_iff.1 hmore₁
  obtain ⟨second, behind, rfl, rfl, rfl⟩ := List.map_eq_cons_iff.1 hmore₂
  obtain ⟨i, rfl⟩ := Group.exists_one_of_glyphs (ne_nil_of_length (length_of_closing? hpair).1)
  obtain ⟨j, rfl⟩ : ∃ j, second = .one j :=
    Group.exists_one_of_glyphs (by rw [hlast]; exact ne_nil_of_length (length_of_closing? hpair).2)
  refine ⟨before, i, inner, j, behind, rfl, by simpa using hstart, by simpa using hstop, ?_, htall, ?_⟩
  · exact hpair.trans (congrArg some hlast.symm)
  · rw [hbuild, ← hlast]
    rfl

namespace Grouped

variable (h : Grouped l groups)
include h

/-- A step of promotion puts a group between two objects. -/
theorem joinAt (hspan : promotionSpan 0 (groups.map (·.build l l)) = some span) :
    Grouped l (joinAt span.start groups) ∧
      ∀ out, span.collapse (groups.map (·.build l out)) = (Omml.joinAt span.start groups).map (·.build l out) := by
  obtain ⟨before, i, inner, j, behind, rfl, hstart, hstop, hpair, htall, hbuild⟩ := exists_of_promotionSpan hspan
  have hjoin : Omml.joinAt span.start (before ++ .one i :: inner :: .one j :: behind) = before ++ .pair i inner j :: behind := by
    rw [Omml.joinAt, hstart, List.drop_left, List.take_left]
  rw [hjoin]
  refine ⟨⟨fun group hgroup => ?_, ?_⟩, fun out => ?_⟩
  · rcases List.mem_append.1 hgroup with hgroup | hgroup
    · exact h.proper group (List.mem_append_left _ hgroup)
    · rcases List.mem_cons.1 hgroup with rfl | hgroup
      · exact .inl ⟨hpair, (h.proper inner (by simp)).isNest htall⟩
      · exact h.proper group (by simp [hgroup])
  · rw [← h.places]
    simp only [List.flatMap_append, List.flatMap_cons, Group.places, List.cons_append, List.nil_append, List.append_assoc]
  · have hbuilt : span.build [nodeAt out i, inner.build l out, nodeAt out j] = (Group.pair i inner j).build l out := by
      rw [hbuild]
      rfl
    have hcollapse := Span.collapse_of_covers (before.map (·.build l out)) [nodeAt out i, inner.build l out, nodeAt out j]
      (behind.map (·.build l out)) (by simpa using hstart) (by simpa using hstop)
    rw [hbuilt] at hcollapse
    simp only [List.map_append, List.map_cons]
    exact hcollapse

/-- What promotion makes of a container, whatever has become of the objects in it. -/
theorem joinFor (fuel : Nat) :
    Grouped l (joinFor l fuel groups) ∧ ∀ out,
      (exhaust (promotionSpan 0) fuel (groups.map (·.build l l)) (groups.map (·.build l out))).1 =
        (Omml.joinFor l fuel groups).map (·.build l out) := by
  induction fuel generalizing groups with
  | zero => exact ⟨h, fun _ => rfl⟩
  | succ fuel ih =>
    cases hspan : promotionSpan 0 (groups.map (·.build l l)) with
    | none => simpa only [Omml.joinFor, exhaust, hspan, implies_true, and_true] using h
    | some span =>
      obtain ⟨hjoined, hcollapse⟩ := h.joinAt hspan
      obtain ⟨hgrouped, hrest⟩ := ih hjoined
      refine ⟨by simpa only [Omml.joinFor, hspan] using hgrouped, fun out => ?_⟩
      simp only [exhaust, Omml.joinFor, hspan, hcollapse, hrest]

end Grouped

theorem grouped_groupsOf (l : List Node) : Grouped l (groupsOf l) := ((grouped_one l).joinFor l.length).1

theorem repairContainer_promotionSpan (hlength : out.length = l.length) :
    (repairContainer (promotionSpan 0) l out).1 = (groupsOf l).map (·.build l out) := by
  have hstart : ∀ out : List Node, out.length = l.length →
      ((List.range l.length).map Group.one).map (·.build l out) = out := by
    intro out hlength
    rw [List.map_map, ← hlength]
    exact map_nodeAt_range out
  have hexhaust := ((grouped_one l).joinFor l.length).2 out
  rw [hstart l rfl, hstart out hlength] at hexhaust
  exact hexhaust

/-! ### All containers -/

mutual

/-- The node with the objects of every container in it grouped. -/
def regroupNode : Node → Node
  | .element tag text children tail =>
    .element tag text
      (if (Node.element tag text children tail).isContainer then (groupsOf children).map (·.build children (regroupNodes children))
      else regroupNodes children) tail
  | .comment content tail => .comment content tail
  | .instruction target content tail => .instruction target content tail

/-- Several nodes with the objects of every container in them grouped. -/
def regroupNodes : List Node → List Node
  | [] => []
  | node :: rest => regroupNode node :: regroupNodes rest

end

/-- The fragment with the objects of every container grouped. -/
def Fragment.regroup (f : Fragment) : Fragment :=
  { f with children := (groupsOf f.children).map (·.build f.children (regroupNodes f.children)) }

theorem length_regroupNodes (l : List Node) : (regroupNodes l).length = l.length := by
  induction l with
  | nil => rfl
  | cons node l ih => rw [regroupNodes, List.length_cons, List.length_cons, ih]

theorem sweepNodes_promotionSpan (l : List Node) : (sweepNodes (promotionSpan 0) l).1 = regroupNodes l := by
  induction l using forest_induction with
  | nil => rfl
  | element tag text children tail rest ihc ihr =>
    rw [sweepNodes_cons, sweepNode_element, regroupNodes, regroupNode, ihr, sweepInside,
      ← repairContainer_promotionSpan (length_regroupNodes children), ← ihc]
    split <;> rfl
  | comment content tail rest ih | instruction target content tail rest ih =>
    rw [sweepNodes_cons, ih]
    rfl

theorem sweep_promotionSpan (f : Fragment) : (sweep (promotionSpan 0) f).1 = f.regroup := by
  rw [Fragment.regroup, ← repairContainer_promotionSpan (length_regroupNodes f.children), ← sweepNodes_promotionSpan]
  rfl

/-! ### Partners -/

/-- Promotion groups the children of every container, sweep after sweep. Where their delimiters are well nested, unlike
delimiters that it takes for a pair are partners, and bars that it takes for a pair are, exactly if the first of no pair
closes another. -/
theorem promoteDelimiters_partners (f : Fragment) :
    promoteDelimiters f = Fragment.regroup^[maxSweeps] f ∧
      ∀ n, ∀ c ∈ (Fragment.regroup^[n] f).containers,
        (groupsOf c.children).flatMap Group.places = List.range c.children.length ∧
        ∀ partners, partners? c.children = some partners →
          (∀ p ∈ (groupsOf c.children).flatMap Group.pairs,
            textAt c.children p.1 ≠ textAt c.children p.2 → p ∈ partners) ∧
          ((∀ p ∈ (groupsOf c.children).flatMap Group.pairs, p ∈ partners) ↔
            ∀ p ∈ (groupsOf c.children).flatMap Group.pairs, ∀ q ∈ partners, q.2 ≠ p.1) := by
  have hsweep : (fun f => (sweep (promotionSpan 0) f).1) = Fragment.regroup := funext sweep_promotionSpan
  refine ⟨?_, fun n c _ => ?_⟩
  · rw [promoteDelimiters, sweepUntilStable, sweepFor_eq_iterate, hsweep]
  obtain ⟨hproper, hplaces⟩ := grouped_groupsOf c.children
  exact ⟨hplaces, fun partners hpartners => pairs_partners hproper hplaces hpartners⟩

/-! ### Bars that are no partners -/

/-- A root between two absolute values. -/
def rootBetweenBars : List Node :=
  let root : Node := mathElement "rad" [mathElement "deg" [], mathElement "e" [plainRun "x"]]
  [plainRun "|", plainRun "x", plainRun "|", root, plainRun "|", plainRun "y", plainRun "|"]

/-- The bar that closes one absolute value and the bar that opens the next are taken for a pair around the root. -/
theorem promoteDelimiters_rootBetweenBars :
    partners? rootBetweenBars = some [(4, 6), (0, 2)] ∧ (groupsOf rootBetweenBars).flatMap Group.pairs = [(2, 4)] ∧
      (promoteDelimiters ⟨none, rootBetweenBars⟩).children =
        [plainRun "|", plainRun "x",
          delimiter "|" "|" [mathElement "rad" [mathElement "deg" [], mathElement "e" [plainRun "x"]]],
          plainRun "y", plainRun "|"] :=
  ⟨by decide, by decide, rfl⟩

end EquationExport.Omml
