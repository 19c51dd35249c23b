import EquationExport.Omml.Repair.Reduce
import EquationExport.Proofs.Omml.Kept

/-!
# Taking nodes away

In equation markup nothing is foreign. A box is read as the content of its slot, and where no slot holds
properties that are read, that content may stand in the place of the box. A property that is undefined and run
properties without content are not read, and nothing asks for them.
-/

namespace EquationExport.Omml

open Xml Xml.Node Repair

variable {strict : Bool} {parent : Text} {node : Node}

/-! ### Foreign nodes -/

theorem pruneAll_of_everywhere {P : Node → Prop} {keep : Option Tag → Node → Bool}
    (hkeep : ∀ tag n, P n → keep tag n = true) (nodes : List Node) :
    ∀ tag, Everywhere P nodes → pruneAll keep tag nodes = nodes := by
  induction nodes using forest_induction with
  | nil => exact fun tag _ => rfl
  | element name text children tail rest ihc ihr =>
    intro tag h
    obtain ⟨hnode, hrest⟩ := everywhere_cons.1 h
    obtain ⟨hroot, hbelow⟩ := everywhere_singleton.1 hnode
    rw [pruneAll, if_pos (hkeep tag _ hroot), ihr tag hrest, Node.prune, ihc (some name) hbelow]
  | comment content tail rest ih | instruction target content tail rest ih =>
    intro tag h
    obtain ⟨hnode, hrest⟩ := everywhere_cons.1 h
    rw [pruneAll, if_pos (hkeep tag _ (everywhere_singleton.1 hnode).1), ih tag hrest]
    rfl

/-- Where every node is equation markup, nothing is left out. -/
theorem Kept.stripForeign (f : Fragment) : Kept strict parent f.children (stripForeign f).children := by
  intro hwithin
  have hall : (Repair.stripForeign f).children = f.children :=
    pruneAll_of_everywhere (P := (·.isMath = true)) (fun _ _ h => h) f.children none (hwithin.proper.mono fun _ h => h.isMath)
  rw [hall]
  exact Kept.refl _ hwithin

/-! ### Boxes -/

/-- The content of a slot that holds no properties, in the place of a box with that slot. -/
theorem Kept.boxed {slot : Node} (hbox : node.isNamed "box" = true) (hchildren : node.children = [slot])
    (hslot : slot.isNamed "e" = true) : Kept true parent [node] slot.children := by
  intro hwithin
  have hlabel : label node = "box" := label_eq_of_isNamed hbox
  have hslotlabel : label slot = "e" := label_eq_of_isNamed hslot
  have hproper : AllProper true [slot] := by
    rw [← hchildren]
    exact (everywhere_singleton.1 hwithin.proper).2
  obtain ⟨hroot, hbelow⟩ := everywhere_singleton.1 hproper
  obtain ⟨htext, hhidden⟩ : ("t" : Text) ∉ labels slot.children ∧ ∀ hidden ∈ hiddenLabels, hidden ∉ labels slot.children := by
    have haccepts := hroot.accepts
    rw [hslotlabel, accepts_other (by decide)] at haccepts
    exact ⟨haccepts.1, haccepts.2 rfl rfl⟩
  have hnamed : ∀ name ∈ hiddenLabels, ∀ n ∈ slot.children, n.isNamed name = false := by
    intro name hname n hn
    rw [← Bool.not_eq_true]
    intro h
    exact hhidden name hname (List.mem_map.2 ⟨n, hn, label_eq_of_isNamed h⟩)
  have hkind : ∀ front rest, Accepts true parent (front ++ labels [node] ++ rest) → kindOf parent = .other := by
    intro front rest haccepts
    refine kindOf_eq_other haccepts (x := "box") ?_ (by decide)
    rw [labels_cons, hlabel]
    simp
  refine ⟨hbelow, fun hbare => ?_, ?_, fun front rest haccepts => ?_, fun _ name hname => ?_, fun group hgroup name _ => ?_⟩
  · have hslotbare : Bare [slot] := by
      rw [← hchildren]
      exact (everywhere_singleton.1 hbare).2
    exact (everywhere_singleton.1 hslotbare).2
  · rw [readings_cons, readings_nil, List.append_nil, reading_eq_readings_children hwithin.proper
      (by rw [hlabel]; decide), hchildren, readings_cons, readings_nil, List.append_nil,
      reading_eq_readings_children hproper (by rw [hslotlabel]; decide)]
  · have hother := hkind front rest haccepts
    rw [accepts_other hother] at haccepts ⊢
    obtain ⟨hnot, hstrict⟩ := haccepts
    simp only [List.mem_append, not_or] at hnot hstrict ⊢
    refine ⟨⟨⟨hnot.1.1, htext⟩, hnot.2⟩, fun _ he hidden hmem => ?_⟩
    obtain ⟨⟨hfront, -⟩, hrest⟩ := hstrict trivial he hidden hmem
    exact ⟨⟨hfront, hhidden hidden hmem⟩, hrest⟩
  · have hmem : name ∈ hiddenLabels := List.mem_cons_of_mem _ hname
    have hnone : label node ∉ glyphProperties := by
      rw [hlabel]
      decide
    rw [valuesOf_of_label hname hnone, valuesOf_eq_nil (hnamed name hmem)]
  · -- an n-ary operator holds no box, so the group can only be that of a delimiter construct
    obtain ⟨front, rest, haccepts⟩ := hwithin.accepts
    have hother := hkind front rest haccepts
    rcases hgroup with ⟨rfl, -⟩ | ⟨-, rfl⟩
    · exact absurd hother (by decide)
    · rw [groupValuesOf_of_label (by decide) hlabel (by decide), groupValuesOf_eq_nil (hnamed "dPr" (by decide))]

theorem Kept.unwrapBox (parent : Text) (node : Node) : Kept true parent [node] (unwrapBox node) := by
  unfold Repair.unwrapBox
  split
  · next slot hbox hchildren =>
    split
    · next hslot => exact Kept.boxed hbox hchildren hslot
    · exact Kept.refl _
  · exact Kept.refl _

end EquationExport.Omml
