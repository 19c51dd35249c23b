import EquationExport.Omml.Repair.Reduce
import EquationExport.Proofs.Omml.Congruence
import EquationExport.Proofs.Omml.Firm

/-!
# A fraction at the top

Whether a fraction stands at the top of an equation is asked before any repair, so the answer looks through what
the first two repairs take away. It looks through every box with a slot, and what stands in a box and is no slot
stands nowhere at the top. The repairs take less and more away than that: a box that has more in it than its slot
stays, a box in a box can lose its own slot first and then have just one, and all that is no equation markup goes,
with the equations in it. Where none of this happens, the two agree.
-/

namespace EquationExport.Omml

open Xml Xml.Node Repair

/-- A fraction stands directly in the fragment or in an equation. -/
def Fragment.HoldsTopFraction (f : Fragment) : Prop :=
  (∃ n ∈ f.children, n.isNamed "f" = true) ∨
    ∃ equation ∈ f.nodes, equation.isNamed "oMath" = true ∧ ∃ n ∈ equation.children, n.isNamed "f" = true

instance (f : Fragment) : Decidable f.HoldsTopFraction := inferInstanceAs (Decidable (_ ∨ _))

/-- A fraction stands directly in an equation among the nodes or, if `top`, is one of them. -/
def HoldsTop (top : Bool) (l : List Node) : Prop :=
  (top = true ∧ ∃ n ∈ l, n.isNamed "f" = true) ∨
    ∃ equation ∈ subtrees l, equation.isNamed "oMath" = true ∧ ∃ n ∈ equation.children, n.isNamed "f" = true

variable {top : Bool} {node : Node} {l : List Node}

/-! ### Directly at the top -/

theorem holdsTop_iff_of_mem : HoldsTop top l ↔ ∃ n ∈ l, HoldsTop top [n] := by
  have hmem : ∀ m, m ∈ subtrees l ↔ ∃ n ∈ l, m ∈ subtrees [n] := by
    intro m
    induction l with
    | nil => simp
    | cons n l ih => simp [ih]
  constructor
  · rintro (⟨htop, n, hn, hf⟩ | ⟨equation, hequation, h⟩)
    · exact ⟨n, hn, .inl ⟨htop, n, by simp, hf⟩⟩
    · obtain ⟨n, hn, hin⟩ := (hmem equation).1 hequation
      exact ⟨n, hn, .inr ⟨equation, hin, h⟩⟩
  · rintro ⟨n, hn, ⟨htop, m, hm, hf⟩ | ⟨equation, hequation, h⟩⟩
    · exact .inl ⟨htop, m, by rwa [List.mem_singleton.1 hm], hf⟩
    · exact .inr ⟨equation, (hmem equation).2 ⟨n, hn, hequation⟩, h⟩

theorem holdsTop_singleton :
    HoldsTop top [node] ↔ (top = true ∧ node.isNamed "f" = true) ∨ HoldsTop (node.isNamed "oMath") node.children := by
  have hsubtree : ∀ m, m ∈ subtrees [node] ↔ m = node ∨ m ∈ subtrees node.children := by
    intro m
    cases node <;> simp [subtree, Node.children]
  simp only [HoldsTop, hsubtree, List.mem_singleton, exists_eq_left, or_and_right, exists_or]

/-! ### Seen through boxes -/

theorem hasTopFractions_iff : hasTopFractions top l = true ↔ ∃ n ∈ l, hasTopFraction top n = true := by
  induction l with
  | nil => simp [hasTopFractions]
  | cons n l ih => simp [hasTopFractions, ih]

theorem hasTopFractionInBox_iff : hasTopFractionInBox top l = true ↔
    ∃ n ∈ l, if n.isNamed "e" = true then hasTopFractions top n.children = true else hasTopFraction false n = true := by
  induction l with
  | nil => simp [hasTopFractionInBox]
  | cons n l ih =>
    cases n with
    | element => simp [hasTopFractionInBox, ih]
    | comment | instruction => simp [hasTopFractionInBox, ih, hasTopFraction, isNamed, name?, tag?]

theorem hasTopFractions_append (top : Bool) (a b : List Node) :
    hasTopFractions top (a ++ b) = (hasTopFractions top a || hasTopFractions top b) := by
  induction a with
  | nil => rfl
  | cons n a ih => rw [List.cons_append, hasTopFractions, hasTopFractions, ih, Bool.or_assoc]

theorem hasTopFractionInBox_append (top : Bool) (a b : List Node) :
    hasTopFractionInBox top (a ++ b) = (hasTopFractionInBox top a || hasTopFractionInBox top b) := by
  rw [Bool.eq_iff_iff, Bool.or_eq_true]
  simp only [hasTopFractionInBox_iff, List.mem_append, or_and_right, exists_or]

theorem hasTopFraction_box (h : node.isNamed "box" = true) :
    hasTopFraction top node = hasTopFractionInBox top node.children := by
  have hfraction : node.isNamed "f" = false := isNamed_of_isNamed h (by decide)
  cases node with
  | element => simp [hasTopFraction, h, hfraction]
  | comment | instruction => cases h

theorem hasTopFraction_of_not_box (h : node.isNamed "box" = false) :
    hasTopFraction top node = (top && node.isNamed "f" || hasTopFractions (node.isNamed "oMath") node.children) := by
  cases node with
  | element => simp [hasTopFraction, h]
  | comment | instruction => simp [hasTopFraction, isNamed, name?, tag?, hasTopFractions, Node.children]

/-- What stands at the top of an equation inside does so wherever the nodes stand. -/
theorem hasTopFractions_mono (h : hasTopFractions false l = true) : hasTopFractions top l = true := by
  suffices hboth : ∀ l, (hasTopFractions false l = true → hasTopFractions top l = true) ∧
      (hasTopFractionInBox false l = true → hasTopFractionInBox top l = true) from (hboth l).1 h
  intro l
  induction l using forest_induction with
  | nil => exact ⟨id, id⟩
  | element tag text children tail rest ihc ihr =>
    rw [hasTopFractions, hasTopFractions, hasTopFractionInBox, hasTopFractionInBox]
    simp only [Bool.or_eq_true]
    refine ⟨fun h => h.imp (fun h => ?_) ihr.1, fun h => h.imp (fun h => ?_) ihr.2⟩
    · cases hbox : (element tag text children tail).isNamed "box" with
      | true =>
        rw [hasTopFraction_box hbox] at h ⊢
        exact ihc.2 h
      | false =>
        rw [hasTopFraction_of_not_box hbox, Bool.false_and, Bool.false_or] at h
        rw [hasTopFraction_of_not_box hbox, h, Bool.or_true]
    · split at h
      · next hslot => rw [if_pos hslot, ihc.1 h]
      · next hslot => rw [if_neg hslot, h]
  | comment content tail rest ih | instruction target content tail rest ih => exact ih

/-! ### Foreign elements left out -/

theorem isNamed_of_not_isMath {name : Text} (h : node.isMath = false) : node.isNamed name = false := by
  rw [← Bool.not_eq_true]
  intro hnamed
  rw [isMath_of_isNamed hnamed] at h
  cases h

theorem hasTopFraction_of_not_isMath (h : node.isMath = false) :
    hasTopFraction top node = hasTopFractions false node.children := by
  rw [hasTopFraction_of_not_box (isNamed_of_not_isMath h), isNamed_of_not_isMath h, isNamed_of_not_isMath h,
    Bool.and_false, Bool.false_or]

/-- A foreign node holds no equation with a fraction at its top. -/
def HoldsNoTop (node : Node) : Prop := node.isMath = false → hasTopFractions false node.children = false

/-- Where foreign nodes hold no fraction at a top, they do so after the change, and the check finds the same. -/
def KeepsTop (old new : List Node) : Prop := Everywhere HoldsNoTop old → Everywhere HoldsNoTop new ∧
  ∀ top, hasTopFractions top new = hasTopFractions top old ∧ hasTopFractionInBox top new = hasTopFractionInBox top old

theorem congruence_keepsTop : Congruence KeepsTop where
  refl _ h := ⟨h, fun _ => ⟨rfl, rfl⟩⟩
  trans hab hbc h := by
    obtain ⟨hb, htop⟩ := hab h
    obtain ⟨hc, htop'⟩ := hbc hb
    exact ⟨hc, fun top => ⟨(htop' top).1.trans (htop top).1, (htop' top).2.trans (htop top).2⟩⟩
  append hab hcd h := by
    obtain ⟨hb, htop⟩ := hab (everywhere_append.1 h).1
    obtain ⟨hd, htop'⟩ := hcd (everywhere_append.1 h).2
    refine ⟨everywhere_append.2 ⟨hb, hd⟩, fun top => ⟨?_, ?_⟩⟩
    · rw [hasTopFractions_append, hasTopFractions_append, (htop top).1, (htop' top).1]
    · rw [hasTopFractionInBox_append, hasTopFractionInBox_append, (htop top).2, (htop' top).2]
  inside {tag text l l' tail} hl h := by
    obtain ⟨hroot, hbelow⟩ := everywhere_singleton.1 h
    obtain ⟨hbelow', htop⟩ := hl hbelow
    have hsame : ∀ top, hasTopFraction top (element tag text l' tail) = hasTopFraction top (element tag text l tail) := by
      intro top
      have hname : ∀ name, (element tag text l' tail).isNamed name = (element tag text l tail).isNamed name := fun _ => rfl
      cases hbox : (element tag text l tail).isNamed "box" with
      | true =>
        rw [hasTopFraction_box hbox, hasTopFraction_box ((hname _).trans hbox)]
        exact (htop top).2
      | false =>
        rw [hasTopFraction_of_not_box hbox, hasTopFraction_of_not_box ((hname _).trans hbox), hname, hname]
        exact congrArg (_ || ·) (htop _).1
    refine ⟨everywhere_singleton.2 ⟨fun hmath => (htop false).1.trans (hroot hmath), hbelow'⟩, fun top => ⟨?_, ?_⟩⟩
    · rw [hasTopFractions, hasTopFractions, hsame]
      rfl
    · rw [hasTopFractionInBox, hasTopFractionInBox, hsame, (htop top).1]
      rfl

/-- Leaving foreign elements out changes nothing if they hold no equations with fractions. -/
theorem hasTopFractions_pruneAll (h : Everywhere HoldsNoTop l) (parent : Option Tag) :
    hasTopFractions top (pruneAll (fun _ n => n.isMath) parent l) = hasTopFractions top l := by
  refine ((congruence_keepsTop.pruneAll (fun _ n hforeign hn => ⟨everywhere_nil, fun top => ?_⟩) l parent h).2 top).1
  have hnone : ∀ top, hasTopFraction top n = false := fun top => by
    rw [hasTopFraction_of_not_isMath hforeign]
    exact (everywhere_singleton.1 hn).1 hforeign
  cases n with
  | element tag text children tail =>
    have hslot : (element tag text children tail).isNamed "e" = false := isNamed_of_not_isMath hforeign
    simp [hasTopFractions, hasTopFractionInBox, hnone, hslot]
  | comment | instruction => exact ⟨by simp [hasTopFractions, hnone], rfl⟩

/-! ### Boxes unwrapped -/

theorem rebuild_unwrapBox_of_not_box (h : node.isNamed "box" = false) :
    node.rebuild unwrapBox = [node.withChildren (rebuildAll unwrapBox node.children)] := by
  cases node with
  | element tag text children tail =>
    have h' : (element tag text (rebuildAll unwrapBox children) tail).isNamed "box" = false := h
    rw [Node.rebuild, unwrapBox, h']
    rfl
  | comment | instruction => rfl

theorem holdsTop_rebuildAll : HoldsTop top (rebuildAll unwrapBox l) ↔ ∃ n ∈ l, HoldsTop top (n.rebuild unwrapBox) := by
  induction l with
  | nil => simp [rebuildAll, HoldsTop]
  | cons n l ih =>
    rw [rebuildAll, holdsTop_iff_of_mem]
    simp only [List.mem_append, or_and_right, exists_or, List.mem_cons, exists_eq_left, ← ih]
    rw [← holdsTop_iff_of_mem, ← holdsTop_iff_of_mem]

/-- A slot in the box with a fraction at its top is all that the box holds, and no box stands in the box. -/
structure IsPassing (box : Node) : Prop where
  nested : ∀ n ∈ box.children, n.isNamed "box" = false
  alone : ∀ slot ∈ box.children, slot.isNamed "e" = true → hasTopFractions true slot.children = true →
    box.children = [slot]

theorem rebuildAll_unwrapBox_of_not_box (h : ∀ n ∈ l, n.isNamed "box" = false) :
    rebuildAll unwrapBox l = l.map fun n => n.withChildren (rebuildAll unwrapBox n.children) := by
  induction l with
  | nil => rfl
  | cons n l ih =>
    rw [rebuildAll, rebuild_unwrapBox_of_not_box (h n (by simp)), ih fun m hm => h m (by simp [hm])]
    rfl

theorem unwrapBox_slot {box slot : Node} (hbox : box.isNamed "box" = true) (hchildren : box.children = [slot])
    (hslot : slot.isNamed "e" = true) : unwrapBox box = slot.children := by
  rw [unwrapBox, hbox, hchildren]
  exact if_pos hslot

theorem unwrapBox_eq_self {box : Node} (h : ¬ ∃ slot, box.children = [slot] ∧ slot.isNamed "e" = true) :
    unwrapBox box = [box] := by
  unfold unwrapBox
  split
  · next slot _ hchildren => exact if_neg fun hslot => h ⟨slot, hchildren, hslot⟩
  · rfl

/-- A box with its slot alone passes on what stands at the top in the slot. -/
theorem holdsTop_rebuild_of_alone {slot : Node} (hbox : node.isNamed "box" = true) (halone : node.children = [slot])
    (hslot : slot.isNamed "e" = true) :
    HoldsTop top (node.rebuild unwrapBox) ↔ ∃ n ∈ slot.children, HoldsTop top (n.rebuild unwrapBox) := by
  cases node with
  | element tag text children tail =>
    obtain rfl : children = [slot] := halone
    have hbox' : (element tag text (rebuildAll unwrapBox [slot]) tail).isNamed "box" = true := hbox
    have hmap : rebuildAll unwrapBox [slot] = [slot.withChildren (rebuildAll unwrapBox slot.children)] :=
      rebuildAll_unwrapBox_of_not_box (by simpa using isNamed_of_isNamed hslot (by decide))
    have hslot' : (slot.withChildren (rebuildAll unwrapBox slot.children)).isNamed "e" = true := by
      rwa [isNamed_withChildren]
    rw [Node.rebuild, unwrapBox_slot hbox' hmap hslot', ← holdsTop_rebuildAll]
    cases slot with
    | element => exact Iff.rfl
    | comment | instruction => cases hslot
  | comment | instruction => cases hbox

/-- Any other box stays, and what stands in it stands nowhere at the top. -/
theorem holdsTop_rebuild_of_not_alone (hbox : node.isNamed "box" = true) (hnested : ∀ n ∈ node.children, n.isNamed "box" = false)
    (hnot : ¬ ∃ slot, node.children = [slot] ∧ slot.isNamed "e" = true) :
    HoldsTop top (node.rebuild unwrapBox) ↔ ∃ n ∈ node.children, HoldsTop false (n.rebuild unwrapBox) := by
  cases node with
  | element tag text children tail =>
    have hbox' : (element tag text (rebuildAll unwrapBox children) tail).isNamed "box" = true := hbox
    have hmap := rebuildAll_unwrapBox_of_not_box (l := children) hnested
    have hstays : ¬ ∃ slot, (element tag text (rebuildAll unwrapBox children) tail).children = [slot] ∧
        slot.isNamed "e" = true := by
      rintro ⟨slot, hone, hslot⟩
      rw [children_element, hmap, List.map_eq_singleton_iff] at hone
      obtain ⟨n, hn, rfl⟩ := hone
      exact hnot ⟨n, hn, by rwa [isNamed_withChildren] at hslot⟩
    rw [Node.rebuild, unwrapBox_eq_self hstays, holdsTop_singleton, isNamed_of_isNamed hbox' (by decide),
      isNamed_of_isNamed hbox' (by decide)]
    simp only [Bool.false_eq_true, and_false, false_or, children_element, holdsTop_rebuildAll]
  | comment | instruction => cases hbox

/-- The check looks through a box as far as the repair takes it away. -/
theorem hasTopFraction_box_iff (hbox : node.isNamed "box" = true) (hpassing : IsPassing node)
    (hchildren : ∀ n ∈ node.children, ∀ top, hasTopFraction top n = true ↔ HoldsTop top (n.rebuild unwrapBox))
    (hinner : ∀ slot ∈ node.children, ∀ n ∈ slot.children, ∀ top,
      hasTopFraction top n = true ↔ HoldsTop top (n.rebuild unwrapBox)) :
    hasTopFraction top node = true ↔ HoldsTop top (node.rebuild unwrapBox) := by
  rw [hasTopFraction_box hbox, hasTopFractionInBox_iff]
  by_cases halone : ∃ slot, node.children = [slot] ∧ slot.isNamed "e" = true
  · obtain ⟨slot, hslot, hnamed⟩ := halone
    rw [holdsTop_rebuild_of_alone hbox hslot hnamed]
    simp only [hslot, List.mem_singleton, exists_eq_left, hnamed, if_true, hasTopFractions_iff]
    exact exists_congr fun n => and_congr_right fun hn => hinner slot (by simp [hslot]) n hn top
  · rw [holdsTop_rebuild_of_not_alone hbox hpassing.nested halone]
    refine exists_congr fun n => and_congr_right fun hn => ?_
    rw [← hchildren n hn]
    split
    · -- a slot with a fraction at its top would be alone in the box
      next hslot =>
      have hnone : hasTopFractions true n.children = false := by
        rw [← Bool.not_eq_true]
        exact fun h => halone ⟨n, hpassing.alone n hn hslot h, hslot⟩
      have hfalse : hasTopFractions false n.children = false := by
        rw [← Bool.not_eq_true] at hnone ⊢
        exact fun h => hnone (hasTopFractions_mono h)
      have hequation : n.isNamed "oMath" = false := isNamed_of_isNamed hslot (by decide)
      rw [hasTopFraction_of_not_box (isNamed_of_isNamed hslot (by decide)), hequation, hfalse]
      cases top <;> simp [hnone, hfalse]
    · exact Iff.rfl

theorem hasTopFraction_iff (h : Everywhere (fun n => n.isNamed "box" = true → IsPassing n) [node]) :
    hasTopFraction top node = true ↔ HoldsTop top (node.rebuild unwrapBox) := by
  -- The slot of a box is looked through, so the induction needs to know of the children's children as well.
  suffices hboth : ∀ node, Everywhere (fun n => n.isNamed "box" = true → IsPassing n) [node] →
      (∀ top, hasTopFraction top node = true ↔ HoldsTop top (node.rebuild unwrapBox)) ∧
        ∀ n ∈ node.children, ∀ top, hasTopFraction top n = true ↔ HoldsTop top (n.rebuild unwrapBox) from
    (hboth node h).1 top
  intro node h
  induction node using tree_induction with
  | element tag text children tail ih =>
    obtain ⟨hnode, hin⟩ := everywhere_singleton.1 h
    have hchildren : ∀ n ∈ children, ∀ top, hasTopFraction top n = true ↔ HoldsTop top (n.rebuild unwrapBox) :=
      fun n hn => (ih n hn (hin.of_mem hn)).1
    refine ⟨fun top => ?_, hchildren⟩
    cases hbox : (element tag text children tail).isNamed "box" with
    | true =>
      exact hasTopFraction_box_iff hbox (hnode hbox) hchildren fun slot hslot => (ih slot hslot (hin.of_mem hslot)).2
    | false =>
      rw [hasTopFraction_of_not_box hbox, rebuild_unwrapBox_of_not_box hbox, holdsTop_singleton, isNamed_withChildren,
        isNamed_withChildren, withChildren_element, children_element, children_element, holdsTop_rebuildAll,
        Bool.or_eq_true, Bool.and_eq_true, hasTopFractions_iff]
      refine or_congr_right (exists_congr fun n => and_congr_right fun hn => hchildren n hn _)
  | comment | instruction =>
    refine ⟨fun top => ?_, fun n hn => by cases hn⟩
    rw [rebuild_unwrapBox_of_not_box rfl, holdsTop_singleton]
    simp [hasTopFraction, isNamed, name?, tag?, HoldsTop, Node.children, Node.withChildren]

/-- The check on the raw fragment agrees with the fragment that the first two repairs leave. -/
theorem hasTopLevelFraction_iff (f : Fragment)
    (hpassing : ∀ n ∈ (stripForeign f).nodes, n.isNamed "box" = true → IsPassing n)
    (hforeign : ∀ n ∈ f.nodes, n.isMath = false → hasTopFractions false n.children = false) :
    f.hasTopLevelFraction = true ↔ (unwrapBoxes (stripForeign f)).HoldsTopFraction := by
  have hstripped : f.hasTopLevelFraction = hasTopFractions true (stripForeign f).children :=
    (hasTopFractions_pruneAll hforeign none).symm
  have hplain : (unwrapBoxes (stripForeign f)).HoldsTopFraction ↔
      HoldsTop true (rebuildAll unwrapBox (stripForeign f).children) := by
    simp only [HoldsTop, true_and]
    rfl
  rw [hstripped, hplain, hasTopFractions_iff, holdsTop_rebuildAll]
  exact exists_congr fun n => and_congr_right fun hn => hasTopFraction_iff (Everywhere.of_mem hpassing hn)

/-- A fraction in a box that only passes it on. -/
def boxedFraction : Fragment := ⟨none, [mathElement "box" [mathElement "e" [fraction [] []]]]⟩

theorem hasTopLevelFraction_boxedFraction :
    boxedFraction.hasTopLevelFraction = true ∧ (unwrapBoxes (stripForeign boxedFraction)).HoldsTopFraction := by
  have htop : boxedFraction.hasTopLevelFraction = true := by decide
  refine ⟨htop, (hasTopLevelFraction_iff boxedFraction ?_ (by decide)).1 htop⟩
  intro n hn hbox
  have hnodes : (stripForeign boxedFraction).nodes = [mathElement "box" [mathElement "e" [fraction [] []]],
    mathElement "e" [fraction [] []], fraction [] [], mathElement "num" [], mathElement "den" []] := rfl
  rw [hnodes, List.mem_cons] at hn
  rcases hn with rfl | hn
  · refine ⟨by decide, fun slot hslot _ _ => ?_⟩
    rw [List.mem_singleton.1 hslot]
    rfl
  · have hnone : ∀ m ∈ [mathElement "e" [fraction [] []], fraction [] [], mathElement "num" [], mathElement "den" []],
        m.isNamed "box" = false := by decide
    rw [hnone n hn] at hbox
    cases hbox

/-- A fraction in a box with properties. -/
def keptBox : Fragment :=
  ⟨none, [mathElement "oMath" [mathElement "box" [mathElement "boxPr" [], mathElement "e" [fraction [] []]]]]⟩

/-- The check looks through a box that stays. -/
theorem hasTopLevelFraction_keptBox :
    keptBox.hasTopLevelFraction = true ∧ ¬ (unwrapBoxes (stripForeign keptBox)).HoldsTopFraction := by
  decide

end EquationExport.Omml
