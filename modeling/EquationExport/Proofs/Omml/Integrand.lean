import EquationExport.Proofs.Omml.Nary
import Mathlib.Data.List.Basic

/-!
# Bodies of operators

An operator adopts the run behind it: the run moves to the end of the body, which is the last slot of the
operator, so it is read at the same place as before. Bodies that are added are empty, and the place of limits
is not read.
-/

namespace EquationExport.Omml

open Xml Xml.Node Repair

variable {parent : Text} {node : Node}

/-! ### The last slot of an operator -/

/-- The body comes last, if it is there. -/
theorem narySlots_cases {children : List Text} (h : children.Sublist narySlots) :
    ∃ front, front.Sublist (Text.ofStrings ["naryPr", "sub", "sup"]) ∧ (children = front ∨ children = front ++ [("e" : Text)]) := by
  have hslots : narySlots = Text.ofStrings ["naryPr", "sub", "sup"] ++ [("e" : Text)] := rfl
  rw [hslots, List.sublist_append_iff] at h
  obtain ⟨front, last, rfl, hfront, hlast⟩ := h
  refine ⟨front, hfront, ?_⟩
  rcases List.sublist_singleton.1 hlast with rfl | rfl
  · exact .inl (List.append_nil front)
  · exact .inr rfl

theorem body_not_mem {front : List Text} (h : front.Sublist (Text.ofStrings ["naryPr", "sub", "sup"])) :
    ("e" : Text) ∉ front := by
  intro hmem
  have hall : ("e" : Text) ∉ Text.ofStrings ["naryPr", "sub", "sup"] := by decide
  exact hall (h.subset hmem)

theorem nil_of_body {front rest : List Text} (h : (front ++ ("e" : Text) :: rest).Sublist narySlots) : rest = [] := by
  obtain ⟨slots, hslots, heq | heq⟩ := narySlots_cases h
  · exact absurd (by simp [← heq] : ("e" : Text) ∈ slots) (body_not_mem hslots)
  · rcases List.append_eq_append_iff.1 heq with ⟨middle, rfl, hrest⟩ | ⟨middle, rfl, hrest⟩
    · cases middle with
      | nil => simpa using hrest
      | cons x middle =>
        obtain ⟨rfl, -⟩ := List.cons.inj hrest
        exact absurd (by simp) (body_not_mem hslots)
    · cases middle with
      | nil => simpa using hrest.symm
      | cons x middle =>
        have hlength := congrArg List.length hrest
        simp at hlength

/-- An empty body at the end of an operator that has none. -/
theorem Kept.ensureBody (parent : Text) (node : Node) : Kept false parent [node] [ensureBody node] := by
  unfold Repair.ensureBody
  split
  · next h =>
    obtain ⟨hnary, hnone⟩ := Bool.and_eq_true_iff.1 h
    cases node with
    | element tag text l tail =>
      rw [Option.isNone_iff_eq_none, slot?_eq_none_iff] at hnone
      refine Kept.nary hnary fun hproper hslots => ⟨everywhere_append.2 ⟨hproper, ?_⟩, ?_, ?_, ?_⟩
      · exact allProper_slot (by decide) (by decide) fillsSlot_nil
      · have hnot : ("e" : Text) ∉ labels l := by
          intro hmem
          obtain ⟨n, hn, hlabel⟩ := List.mem_map.1 hmem
          have hnamed := hnone n hn
          rw [(everywhere_singleton.1 (hproper.of_mem hn)).1.isNamed_eq, hlabel] at hnamed
          exact absurd hnamed (by decide)
        obtain ⟨front, hfront, heq | heq⟩ := narySlots_cases hslots
        · rw [children_element, labels_append, heq]
          exact List.Sublist.append hfront (List.Sublist.refl _)
        · exact absurd (by rw [heq]; simp) hnot
      · rw [children_element, readings_append, readings_cons, reading_mathElement "e" (by decide)]
        simp
      · rw [children_element, groupValuesOf_append,
          groupValuesOf_of_label (by decide) (label_mathElement "e" []) (by decide), List.append_nil]
    | comment | instruction => cases hnary
  · exact Kept.refl _

theorem isSome_slot?_ensureBody (h : node.isNamed "nary" = true) : ((ensureBody node).slot? "e").isSome = true := by
  unfold ensureBody
  rw [h, Bool.true_and]
  cases hslot : node.slot? "e" with
  | some body => simpa using congrArg Option.isSome hslot
  | none =>
    cases node with
    | element tag text l tail =>
      simp only [Option.isNone_none, if_true, withChildren_element, slot?, children_element, List.find?_isSome]
      exact ⟨mathElement "e" [], by simp, isNamed_mathElement_self ..⟩
    | comment | instruction => cases h

theorem name?_adoptInside (node : Node) : (adoptInside node).name? = node.name? := by
  cases node with
  | element tag text children tail =>
    rw [adoptInside, ensureBody]
    split <;> simp [name?, tag?]
  | comment | instruction => rfl

theorem isNamed_adoptInside (node : Node) (name : Text) : (adoptInside node).isNamed name = node.isNamed name := by
  rw [isNamed, isNamed, name?_adoptInside]

theorem isSome_slot?_adoptInside (h : node.isNamed "nary" = true) : ((adoptInside node).slot? "e").isSome = true := by
  cases node with
  | element tag text children tail => exact isSome_slot?_ensureBody h
  | comment | instruction => cases h

/-! ### Adopting a run -/

/-- A slot with a run behind its content is read as the slot and the run. -/
theorem allProper_appendRun {body run : Node} (hlabel : label body = "e") (hbody : AllProper false [body])
    (hproper : AllProper false [run]) (hrun : run.isRun = true) :
    AllProper false [body.withChildren (body.children ++ [run])] ∧
      reading (body.withChildren (body.children ++ [run])) = reading body ++ reading run := by
  have hlabel' : label (body.withChildren (body.children ++ [run])) = "e" := by rw [label_withChildren, hlabel]
  have hslot : ∀ {b : Node}, AllProper false [b] → label b = "e" → reading b = readings b.children := fun hb hlabel =>
    reading_eq_readings_children hb (by rw [hlabel]; decide)
  have hnew : AllProper false [body.withChildren (body.children ++ [run])] := by
    obtain ⟨hroot, hbelow⟩ := everywhere_singleton.1 hbody
    refine allProper_withChildren hbody ?_ (fun hpr => ?_) (everywhere_append.2 ⟨hbelow, hproper⟩)
    · have haccepts := hroot.accepts
      rw [hlabel, accepts_other (by decide)] at haccepts ⊢
      rw [labels_append, List.mem_append, labels_cons, label_of_isRun hrun]
      exact ⟨not_or.2 ⟨haccepts.1, by decide⟩, by simp⟩
    · rw [hlabel] at hpr
      exact absurd hpr (by decide)
  refine ⟨hnew, ?_⟩
  rw [hslot hnew hlabel', hslot hbody hlabel]
  cases body with
  | element => rw [withChildren_element, children_element, children_element, readings_append, readings_cons,
      readings_nil, List.append_nil]
  | comment | instruction => exact absurd hlabel (show ([] : Text) ≠ "e" by decide)

/-- A run behind an operator, at the end of its body instead. -/
theorem Kept.appendToBody {run : Node} (hnary : node.isNamed "nary" = true) (hbody : (node.slot? "e").isSome = true)
    (hrun : run.isRun = true) : Kept false parent [node, run] [appendToBody node run] := by
  cases node with
  | element tag text l tail =>
    obtain ⟨body, hslot⟩ := Option.isSome_iff_exists.1 hbody
    obtain ⟨hnamed, front, rest, hl, hfront⟩ := List.find?_eq_some_iff_append.1 hslot
    obtain rfl : l = front ++ body :: rest := hl
    have hfront' : ∀ m ∈ front, m.isNamed "e" = false := by simpa using hfront
    rw [Repair.appendToBody, children_element, modifyFirst_append _ front rest hfront' hnamed, withChildren_element]
    have hlabel : ∀ l, label (element tag text l tail) = "nary" := fun l => label_eq_of_isNamed hnary
    have hbodylabel : label body = "e" := label_eq_of_isNamed hnamed
    refine Kept.of_object ⟨_, List.mem_cons_self, by rw [hlabel]; decide⟩ (fun hbare => ?_) ?_ ?_ fun hwithin => ?_
    · exact not_bare_of_isNamed hnary (by decide) (everywhere_cons.1 hbare).1
    · rw [labels_cons, hlabel]
      decide
    · intro group hgroup name _
      rw [groupValuesOf_of_label hgroup.mem (hlabel _) (by decide), ← List.singleton_append, groupValuesOf_append,
        groupValuesOf_of_label hgroup.mem (hlabel _) (by decide),
        groupValuesOf_of_label hgroup.mem (label_of_isRun hrun) (by decide)]
      rfl
    · obtain ⟨hproper, hprun⟩ := everywhere_cons.1 hwithin.proper
      obtain ⟨hroot, hbelow⟩ := everywhere_singleton.1 hproper
      have hslots : (labels front ++ ("e" : Text) :: labels rest).Sublist narySlots := by
        have haccepts := hroot.accepts
        rwa [hlabel, accepts_nary, children_element, labels_append, labels_cons, hbodylabel] at haccepts
      obtain rfl : rest = [] := List.map_eq_nil_iff.1 (nil_of_body hslots)
      obtain ⟨hfrontproper, hbodyproper⟩ := everywhere_append.1 hbelow
      obtain ⟨hnew, hread⟩ := allProper_appendRun hbodylabel hbodyproper hprun hrun
      refine ⟨allProper_withChildren hproper ?_ (fun hpr => ?_) (everywhere_append.2 ⟨hfrontproper, hnew⟩), ?_⟩
      · rw [hlabel, accepts_nary, labels_append, labels_cons, label_withChildren, hbodylabel]
        exact hslots
      · rw [hlabel] at hpr
        exact absurd hpr (by decide)
      · have hd : ∀ l, (element tag text l tail).isNamed "d" = false := fun l => isNamed_of_isNamed hnary (by decide)
        have hbefore : readBefore (element tag text (front ++ [body.withChildren (body.children ++ [run])]) tail) =
            readBefore (element tag text (front ++ [body]) tail) := by
          refine readBefore_congr (fun _ => ?_) fun h => ?_
          · rw [groupValuesOf_append, groupValuesOf_append, groupValuesOf_of_label (by decide) hbodylabel (by decide),
              groupValuesOf_of_label (by decide) ((label_withChildren ..).trans hbodylabel) (by decide)]
          · rw [hd] at h
            cases h
        have hafter : ∀ l, readAfter (element tag text l tail) = [] := fun l => by
          rw [readAfter, hd]
          rfl
        simp only [readings_cons, readings_nil, List.append_nil, reading_element, hbefore, hafter, readings_append,
          hread, List.append_assoc]
  | comment | instruction => cases hnary

/-! ### Adopting among neighbours -/

theorem isRun_of_isAdoptable (h : isAdoptable node = true) : node.isRun = true := by
  unfold isAdoptable runText? at h
  split at h
  · next text htext =>
    split at htext
    · next hrun => exact hrun
    · cases htext
  · cases h

theorem Kept.adoptAmong_of_inside : ∀ nodes : List Node,
    (∀ n ∈ nodes, Kept false parent [n] [adoptInside n]) → Kept false parent nodes (adoptAmong nodes)
  | [], _ => Kept.refl []
  | [node], h => h node (by simp)
  | node :: next :: rest, h => by
    rw [adoptAmong]
    split
    · next hadopts =>
      obtain ⟨hlacks, hadoptable⟩ := Bool.and_eq_true_iff.1 hadopts
      have hnary : node.isNamed "nary" = true := (Bool.and_eq_true_iff.1 hlacks).1
      have hrun : next.isRun = true := isRun_of_isAdoptable hadoptable
      have hinside : Kept false parent [node, next] [adoptInside node, adoptInside next] :=
        (h node (by simp)).cons (h next (by simp))
      have hadopt : Kept false parent [adoptInside node, adoptInside next]
          [Repair.appendToBody (adoptInside node) (adoptInside next)] :=
        Kept.appendToBody (by rw [isNamed_adoptInside, hnary]) (isSome_slot?_adoptInside hnary)
          (by rw [isRun, isNamed_adoptInside, ← isRun, hrun])
      exact (hinside.trans hadopt).append (adoptAmong_of_inside rest fun n hn => h n (by simp [hn]))
    · exact (h node (by simp)).cons (adoptAmong_of_inside (next :: rest) fun n hn => h n (List.mem_cons_of_mem _ hn))

theorem Kept.adoptInside (node : Node) : ∀ parent, Kept false parent [node] [adoptInside node] := by
  induction node using tree_induction with
  | element tag text children tail ih =>
    intro parent
    rw [Repair.adoptInside]
    exact (Kept.inside (Kept.adoptAmong_of_inside children fun n hn => ih n hn _)).trans (Kept.ensureBody parent _)
  | comment | instruction => exact fun parent => Kept.refl _

theorem Kept.adoptAmong (parent : Text) (nodes : List Node) : Kept false parent nodes (adoptAmong nodes) :=
  Kept.adoptAmong_of_inside nodes fun n _ => Kept.adoptInside n parent

/-! ### The place of limits -/

theorem Kept.placeLimits (parent : Text) (node : Node) : Kept false parent [node] [placeLimits node] := by
  unfold Repair.placeLimits
  split
  · next h => exact Kept.setProperty (by decide) (Bool.and_eq_true_iff.1 h).1
  · exact Kept.refl _

end EquationExport.Omml
