import EquationExport.Omml.Repair.Script
import EquationExport.Proofs.Omml.Faithful

/-!
# Scripts

Scripts that follow the schema have their slots, so none of them is taken apart, and they are read as their
base and what is set on it. The repair that turns scripts into operators keeps that.
-/

namespace EquationExport.Omml

open Xml Xml.Node Repair

variable {parent : Text} {node : Node}

/-! ### The slots of scripts -/

theorem isScript_iff (h : node.isMath = true) :
    node.isScript = true ↔ label node = "sSub" ∨ label node = "sSup" ∨ label node = "sSubSup" := by
  rw [isScript, isOneOf_eq_label h]
  simp [scriptNames]

/-- A group of properties is not read. -/
theorem reading_group (h : AllProper false [node]) (hpr : (label node).endsWith "Pr" = true) : reading node = [] := by
  obtain ⟨hroot, hbelow⟩ := everywhere_singleton.1 h
  have hall : ∀ name ∈ Text.ofStrings ["t", "r", "nary", "d"], name.endsWith "Pr" = false := by decide
  have hlabel : label node ∉ Text.ofStrings ["t", "r", "nary", "d"] := by
    intro hmem
    rw [hall _ hmem] at hpr
    cases hpr
  simp only [Text.ofStrings, List.map_cons, List.map_nil, List.mem_cons, List.not_mem_nil, or_false, not_or] at hlabel
  obtain ⟨ht, hr, hnary, hd⟩ := hlabel
  rw [reading_eq_readings_children h (by simp [Text.ofStrings, ht, hnary, hd])]
  exact readings_eq_nil hbelow (hroot.bare hpr) (hroot.accepts.text_not_mem hr)

/-- The children of scripts: a group of properties that may be missing, and the slots. -/
theorem exists_slots {slots : List Text} (h : AllProper false [node]) (hkind : kindOf (label node) = .script slots) :
    ∃ groups rest, node.children = groups ++ rest ∧ labels rest = slots ∧ readings groups = [] ∧
      ∀ g ∈ groups, ∀ name ∈ Text.ofStrings ["e", "sub", "sup"], g.isNamed name = false := by
  obtain ⟨hroot, hbelow⟩ := everywhere_singleton.1 h
  have haccepts := hroot.accepts
  simp only [Accepts, hkind] at haccepts
  obtain ⟨group, hlabels, hgroup⟩ := haccepts
  obtain ⟨groups, rest, hchildren, hgroups, hrest⟩ := List.map_eq_append_iff.1 hlabels
  refine ⟨groups, rest, hchildren, hrest, ?_, ?_⟩
  · rcases hgroup with rfl | ⟨properties, rfl, hends⟩
    · rw [List.map_eq_nil_iff.1 hgroups]
      rfl
    · obtain ⟨g, rfl, hlabel⟩ := List.map_eq_singleton_iff.1 hgroups
      rw [readings_cons, readings_nil, List.append_nil]
      exact reading_group (hbelow.of_mem (by simp [hchildren])) (by rw [hlabel, hends])
  · intro g hg name hname
    have hproper := (everywhere_singleton.1 (hbelow.of_mem (by simp [hchildren, hg] : g ∈ node.children))).1
    rcases hgroup with rfl | ⟨properties, rfl, hends⟩
    · rw [List.map_eq_nil_iff.1 hgroups] at hg
      cases hg
    · obtain ⟨g', rfl, hlabel⟩ := List.map_eq_singleton_iff.1 hgroups
      obtain rfl := List.mem_singleton.1 hg
      rw [hproper.isNamed_eq, beq_eq_false_iff_ne, hlabel]
      rintro rfl
      have hall : ∀ name ∈ Text.ofStrings ["e", "sub", "sup"], name.endsWith "Pr" = false := by decide
      rw [hall _ hname] at hends
      cases hends

/-- Slots with different names are found by their names, and are read one after the other. -/
theorem readings_slots {rest : List Node} (h : AllProper false rest) (hnodup : (labels rest).Nodup)
    (hslots : ∀ x ∈ labels rest, x ∉ Text.ofStrings ["t", "nary", "d"]) :
    readings rest = (labels rest).flatMap fun x => (rest.find? (·.isNamed x)).elim [] fun slot => readings slot.children := by
  induction rest with
  | nil => rfl
  | cons slot rest ih =>
    obtain ⟨hslot, hrest⟩ := everywhere_cons.1 h
    obtain ⟨hnot, hnodup⟩ := List.nodup_cons.1 hnodup
    have hnamed := (everywhere_singleton.1 hslot).1.isNamed_eq
    have hfirst : (slot :: rest).find? (·.isNamed (label slot)) = some slot := by
      rw [List.find?_cons, hnamed, beq_self_eq_true]
    have hskip : ∀ x ∈ labels rest, (slot :: rest).find? (·.isNamed x) = rest.find? (·.isNamed x) := by
      intro x hx
      have hne : (label slot == x) = false := by
        rw [beq_eq_false_iff_ne]
        rintro rfl
        exact hnot hx
      rw [List.find?_cons, hnamed, hne]
    rw [readings_cons, reading_eq_readings_children hslot (hslots _ (by simp)), labels_cons, List.flatMap_cons, hfirst,
      ih hrest hnodup fun x hx => hslots x (by simp [hx])]
    congr 1
    exact List.flatMap_congr fun x hx => by rw [hskip x hx]

theorem isSome_find?_of_label {rest : List Node} (h : AllProper false rest) {x : Text} :
    (rest.find? (·.isNamed x)).isSome = true ↔ x ∈ labels rest := by
  rw [List.find?_isSome]
  constructor
  · rintro ⟨slot, hslot, hnamed⟩
    exact List.mem_map.2 ⟨slot, hslot, label_eq_of_isNamed hnamed⟩
  · intro hx
    obtain ⟨slot, hslot, rfl⟩ := List.mem_map.1 hx
    refine ⟨slot, hslot, ?_⟩
    rw [(everywhere_singleton.1 (h.of_mem hslot)).1.isNamed_eq, beq_self_eq_true]

theorem readings_slotChildren (node : Node) (name : Text) :
    readings (slotChildren node name) = (node.slot? name).elim [] fun slot => readings slot.children := by
  unfold slotChildren
  cases node.slot? name <;> rfl

/-- What is asked of the slots of a kind of scripts. -/
theorem slots_of_kind {name : Text} {slots : List Text} (h : kindOf name = .script slots) :
    name ∉ Text.ofStrings ["t", "nary", "d"] ∧ slots.Nodup ∧ ("e" : Text) ∈ slots ∧
      ∀ x ∈ slots, x ∈ Text.ofStrings ["e", "sub", "sup"] ∧ x ∉ Text.ofStrings ["t", "nary", "d"] := by
  rcases kindOf_eq_script h with ⟨rfl, rfl⟩ | ⟨rfl, rfl⟩ | ⟨rfl, rfl⟩ <;> decide

/-- Scripts are read slot by slot, and have the slots of their kind and no others. -/
theorem reading_script {slots : List Text} (h : AllProper false [node]) (hkind : kindOf (label node) = .script slots) :
    reading node = slots.flatMap (fun x => readings (slotChildren node x)) ∧
      ∀ name ∈ Text.ofStrings ["e", "sub", "sup"], (node.slot? name).isSome = true ↔ name ∈ slots := by
  obtain ⟨hlabel, hnodup, -, hnames⟩ := slots_of_kind hkind
  obtain ⟨groups, rest, hchildren, rfl, hgroupsread, hgroups⟩ := exists_slots h hkind
  have hproper : AllProper false rest :=
    (everywhere_singleton.1 h).2.sublist (by rw [hchildren]; exact List.sublist_append_right ..)
  have hfind : ∀ name ∈ Text.ofStrings ["e", "sub", "sup"], node.slot? name = rest.find? (·.isNamed name) := by
    intro name hname
    have hnone : groups.find? (·.isNamed name) = none := by
      rw [List.find?_eq_none]
      exact fun g hg => by simp [hgroups g hg name hname]
    rw [Node.slot?, hchildren, List.find?_append, hnone, Option.none_or]
  refine ⟨?_, fun name hname => by rw [hfind name hname, isSome_find?_of_label hproper]⟩
  rw [reading_eq_readings_children h hlabel, hchildren, readings_append, hgroupsread, List.nil_append,
    readings_slots hproper hnodup fun x hx => (hnames x hx).2]
  exact List.flatMap_congr fun x hx => by rw [readings_slotChildren, hfind x (hnames x hx).1]

/-- The base of scripts, and what is set on it. -/
structure IsBase (node base : Node) : Prop where
  slot : node.slot? "e" = some base
  complete : ((requiredSlots node).all fun name => (node.slot? name).isSome) = true
  reading : reading node =
    readings base.children ++ (readings (slotChildren node "sub") ++ readings (slotChildren node "sup"))

/-- Scripts that follow the schema have a base, and the slots that are asked of them. -/
theorem exists_isBase (h : AllProper false [node]) (hscript : node.isScript = true) : ∃ base, IsBase node base := by
  have hmath := (everywhere_singleton.1 h).1.isMath
  obtain ⟨slots, hkind, hrequired⟩ : ∃ slots, kindOf (label node) = .script slots ∧
      ∀ x ∈ requiredSlots node, x ∈ Text.ofStrings ["e", "sub", "sup"] ∧ x ∈ slots := by
    unfold requiredSlots
    rw [isNamed_eq_label hmath, isNamed_eq_label hmath]
    rcases (isScript_iff hmath).1 hscript with hlabel | hlabel | hlabel <;> rw [hlabel]
    · exact ⟨Text.ofStrings ["e", "sub"], rfl, by decide⟩
    · exact ⟨Text.ofStrings ["e", "sup"], rfl, by decide⟩
    · exact ⟨Text.ofStrings ["e", "sub", "sup"], rfl, by decide⟩
  obtain ⟨hreading, hsome⟩ := reading_script h hkind
  obtain ⟨-, -, he, -⟩ := slots_of_kind hkind
  obtain ⟨base, hbase⟩ := Option.isSome_iff_exists.1 ((hsome "e" (by decide)).2 he)
  have hbread : readings (slotChildren node "e") = readings base.children := by
    rw [readings_slotChildren, hbase, Option.elim]
  have hnone : ∀ name ∈ Text.ofStrings ["e", "sub", "sup"], name ∉ slots → readings (slotChildren node name) = [] := by
    intro name hname hnot
    have hslot : node.slot? name = none := by
      rw [← Option.not_isSome_iff_eq_none, hsome name hname]
      exact hnot
    rw [readings_slotChildren, hslot, Option.elim]
  refine ⟨base, hbase, List.all_eq_true.2 fun x hx => (hsome x (hrequired x hx).1).2 (hrequired x hx).2, ?_⟩
  rw [hreading, ← hbread]
  rcases kindOf_eq_script hkind with ⟨-, rfl⟩ | ⟨-, rfl⟩ | ⟨-, rfl⟩
  · have hsup := hnone "sup" (by decide) (by decide)
    simp [Text.ofStrings, hsup]
  · have hsub := hnone "sub" (by decide) (by decide)
    simp [Text.ofStrings, hsub]
  · simp [Text.ofStrings]

/-! ### Scripts are not taken apart -/

theorem dissolveInvalid_of_proper (h : AllProper false [node]) : dissolveInvalid node = [node] := by
  unfold dissolveInvalid
  split
  · next hscript =>
    obtain ⟨base, hbase⟩ := exists_isBase h hscript
    rw [hbase.slot]
    simp only [hbase.complete, if_true]
  · rfl

theorem Kept.dissolveInvalid (parent : Text) (node : Node) : Kept false parent [node] (dissolveInvalid node) := by
  intro hwithin
  rw [dissolveInvalid_of_proper hwithin.proper]
  exact Kept.refl _ hwithin

/-! ### Scripts on operators -/

theorem fillsSlot_slotChildren (h : AllProper false [node]) {name : Text} (hkind : kindOf name = .other) :
    FillsSlot (slotChildren node name) := by
  unfold slotChildren
  cases hslot : node.slot? name with
  | none => exact fillsSlot_nil
  | some slot =>
    have hnamed : slot.isNamed name = true := by simpa using List.find?_some hslot
    obtain ⟨hroot, hbelow⟩ := everywhere_singleton.1 ((everywhere_singleton.1 h).2.of_mem (List.mem_of_find?_eq_some hslot))
    have haccepts := hroot.accepts
    rw [label_eq_of_isNamed hnamed, accepts_other hkind] at haccepts
    exact ⟨hbelow, haccepts.1⟩

/-- An object in a slot is in the tree. -/
theorem not_bare_of_mem_slotChildren {name : Text} {object : Node} (hmem : object ∈ slotChildren node name)
    (hrun : object.isRun = true) : ¬ Bare [node] := by
  intro hbare
  unfold slotChildren at hmem
  cases hslot : node.slot? name with
  | none => simp [hslot] at hmem
  | some slot =>
    rw [hslot] at hmem
    have hslotbare := (everywhere_singleton.1 hbare).2.children (List.mem_of_find?_eq_some hslot)
    exact not_bare_of_isNamed hrun (by decide) (hslotbare.of_mem hmem)

theorem Kept.promoteScript (parent : Text) (node : Node) : Kept false parent [node] [promoteScript node] := by
  unfold Repair.promoteScript
  split
  · next hscript =>
    split
    · next base hchildren =>
      dsimp only
      split
      · next hsign =>
        intro hwithin
        have hlabels := (isScript_iff (everywhere_singleton.1 hwithin.proper).1.isMath).1 hscript
        have hlength := length_of_isGlyphOf hsign
        have hne := ne_nil_of_length hlength
        have hbare : ¬ Bare [node] :=
          not_bare_of_mem_slotChildren (by rw [hchildren]; simp) (isRun_of_glyphs hne : base.isRun = true)
        have hobject : IsObject (label node) ∧ label node ∉ readGroups := by
          rcases hlabels with hlabel | hlabel | hlabel <;> rw [hlabel] <;> decide
        have hnary : ∀ location, label (Omml.nary base.glyphs (slotChildren node "sub") (slotChildren node "sup") []
            location) = "nary" := fun location => label_eq_of_isNamed (isNamed_nary ..)
        refine Kept.of_object ⟨node, by simp, hobject.1⟩ hbare ?_ ?_ (fun hwithin => ?_) hwithin
        · rw [labels_cons, hnary]
          decide
        · intro group hgroup name _
          rw [groupValuesOf_of_label hgroup.mem (hnary _) (by decide), groupValuesOf_of_label hgroup.mem rfl hobject.2]
        · have hproper := hwithin.proper
          obtain ⟨slot, hslot⟩ := exists_isBase hproper hscript
          have hbase : AllProper false [base] := by
            have hfills := fillsSlot_slotChildren hproper (by decide : kindOf "e" = .other)
            rw [hchildren] at hfills
            exact hfills.proper
          have hslotread : readings slot.children = reading base := by
            have hslotchildren : slotChildren node "e" = slot.children := by rw [slotChildren, hslot.slot]
            rw [← hslotchildren, hchildren, readings_cons, readings_nil, List.append_nil]
          obtain ⟨hfills, hread⟩ := fillsSlot_nary hne (ne_undefined_of_length (by omega))
            (fillsSlot_slotChildren hproper (by decide : kindOf "sub" = .other))
            (fillsSlot_slotChildren hproper (by decide : kindOf "sup" = .other)) fillsSlot_nil
          refine ⟨hfills.proper, ?_⟩
          rw [hread, readings_cons, readings_nil, List.append_nil, hslot.reading, hslotread]
          simp only [Text.legible_append, List.append_nil, legible_glyphs hbase hne]
      · exact Kept.refl _
    · exact Kept.refl _
  · exact Kept.refl _

end EquationExport.Omml
