import EquationExport.Proofs.Omml.Slots
import EquationExport.Proofs.Omml.Undeclared

/-!
# What is always done

Whatever a fragment was, after all repairs every n-ary operator has a body, all scripts have their slots, and no group
of properties holds one that is undefined. Each of the three comes about by one repair, and the later ones keep it. It
is still so when the fragment is written and read again.
-/

namespace EquationExport.Omml

open Xml Xml.Node Repair

variable {node : Node} {l : List Node} {f : Fragment}

/-! ### Bodies and scripts -/

/-- An n-ary operator has a body. -/
def HasBody (node : Node) : Prop := node.isNamed "nary" = true → (node.slot? "e").isSome = true

/-- Scripts have their slots. -/
def HasScriptSlots (node : Node) : Prop := node.isScript = true → isWholeScript node = true

theorem isSome_slot?_of_keepsSlots {tag tag' : Tag} {text text' : Option Text} {l l' : List Node} {tail tail' name : Text}
    (hname : name ∈ slotNames) (h : KeepsSlots l l') (hslot : ((element tag text l tail).slot? name).isSome = true) :
    ((element tag' text' l' tail').slot? name).isSome = true :=
  isSome_slot?_iff.2 (h name hname (isSome_slot?_iff.1 hslot))

theorem isWholeScript_iff : isWholeScript node = true ↔ ∀ name ∈ scriptSlots node, (node.slot? name).isSome = true := by
  simp [isWholeScript, scriptSlots]

theorem asksSlots_hasBody : AsksSlots HasBody where
  keeps := by
    intro tag tag' text text' l l' tail tail' hname hslots h hnary
    refine isSome_slot?_of_keepsSlots (by decide) hslots (h ?_)
    simpa [isNamed, name?, tag?, hname] using hnary
  other node hnary _ hnamed := by
    rw [hnary] at hnamed
    cases hnamed

theorem asksSlots_hasScriptSlots : AsksSlots HasScriptSlots where
  keeps := by
    intro tag tag' text text' l l' tail tail' hname hslots h hscript
    have hnamed : ∀ other, (element tag' text' l' tail').isNamed other = (element tag text l tail).isNamed other := fun other => by
      simp [isNamed, name?, tag?, hname]
    have hwhole := isWholeScript_iff.1 (h (by simpa only [isScript, isOneOf, funext hnamed] using hscript))
    refine isWholeScript_iff.2 fun name hmem => ?_
    have hmem' : name ∈ scriptSlots (element tag text l tail) := by
      simpa only [scriptSlots, requiredSlots, hnamed] using hmem
    exact isSome_slot?_of_keepsSlots (scriptSlots_subset _ name hmem') hslots (hwhole name hmem')
  other node _ hscript hscript' := by
    rw [hscript] at hscript'
    cases hscript'

/-- Once the repair has gone through a tree, every operator in it has a body. -/
theorem hasBody_adoptInside (node : Node) : Everywhere HasBody [adoptInside node] := by
  induction node using tree_induction with
  | element tag text children tail ih =>
    have hbelow : Everywhere HasBody (adoptAmong children) :=
      Lasting.adoptAmong_of_inside (fun _ _ => asksSlots_hasBody.appendToBody) children ih
    refine everywhere_singleton.2 ⟨fun hnary => ?_, ?_⟩
    · rw [isNamed_adoptInside] at hnary
      exact isSome_slot?_adoptInside hnary
    · rw [adoptInside, ensureBody]
      split
      · exact everywhere_append.2 ⟨hbelow, asksSlots_hasBody.concerns.construct (by decide) everywhere_nil⟩
      · exact hbelow
  | comment | instruction => exact everywhere_singleton.2 ⟨fun hnary => absurd hnary Bool.false_ne_true, everywhere_nil⟩

theorem hasBody_adoptIntegrands (f : Fragment) : Everywhere HasBody (adoptIntegrands f).children :=
  Lasting.adoptAmong_of_inside (fun _ _ => asksSlots_hasBody.appendToBody) _ fun n _ => hasBody_adoptInside n

/-- What is left of scripts that lack a slot stood in them, and the others have their slots. -/
theorem hasScriptSlots_dissolveInvalid (node : Node) (h : Everywhere HasScriptSlots node.children) :
    Everywhere HasScriptSlots (dissolveInvalid node) := by
  unfold dissolveInvalid
  split
  · split
    · exact everywhere_nil
    · next base hbase =>
      split
      · next hslots =>
        refine everywhere_singleton.2 ⟨fun _ => ?_, h⟩
        rw [isWholeScript, hbase, hslots]
        rfl
      · exact h.children (List.mem_of_find?_eq_some hbase)
  · next hscript => exact everywhere_singleton.2 ⟨fun h => absurd h hscript, h⟩

theorem hasScriptSlots_rebuildAll (nodes : List Node) : Everywhere HasScriptSlots (rebuildAll dissolveInvalid nodes) := by
  induction nodes using forest_induction with
  | nil => exact everywhere_nil
  | element tag text children tail rest ihc ihr =>
    exact everywhere_append.2 ⟨hasScriptSlots_dissolveInvalid (element tag text _ tail) ihc, ihr⟩
  | comment content tail rest ih | instruction target content tail rest ih =>
    exact everywhere_append.2 ⟨hasScriptSlots_dissolveInvalid _ everywhere_nil, ih⟩

theorem hasScriptSlots_repairInvalidScripts (f : Fragment) : Everywhere HasScriptSlots (repairInvalidScripts f).children :=
  hasScriptSlots_rebuildAll _

/-! ### Undefined properties -/

/-- No property in a group is undefined. -/
def HoldsDefined (node : Node) : Prop := holdsUndefined node = false

/-- Nothing new among the nodes is undefined. -/
def StaysDefined (old new : List Node) : Prop := ∀ n ∈ new, isUndefined n = true → ∃ m ∈ old, isUndefined m = true

theorem HoldsDefined.of_staysDefined {tag tag' : Tag} {text text' : Option Text} {l l' : List Node} {tail tail' : Text}
    (hname : tag'.name = tag.name) (hl : StaysDefined l l') (h : HoldsDefined (element tag text l tail)) :
    HoldsDefined (element tag' text' l' tail') := by
  rw [HoldsDefined, Bool.eq_false_iff] at h ⊢
  intro hholds
  obtain ⟨hgroup, hany⟩ := Bool.and_eq_true_iff.1 hholds
  obtain ⟨n, hn, hundefined⟩ := List.any_eq_true.1 hany
  refine h (Bool.and_eq_true_iff.2 ⟨?_, List.any_eq_true.2 (hl n hn hundefined)⟩)
  simpa [isPropertyGroup, tag?, hname] using hgroup

theorem staysDefined_of_forall₂ {old new : List Node} (h : List.Forall₂ (fun m n => isUndefined n = isUndefined m) old new) :
    StaysDefined old new := by
  intro n hn hundefined
  induction h with
  | nil => cases hn
  | @cons m k old new hmk _ ih =>
    rcases List.mem_cons.1 hn with rfl | hn
    · exact ⟨m, List.mem_cons_self, by rwa [← hmk]⟩
    · obtain ⟨m', hm', hundefined'⟩ := ih hn
      exact ⟨m', List.mem_cons_of_mem _ hm', hundefined'⟩

theorem mem_pruneAll {keep : Option Tag → Node → Bool} {parent : Option Tag} {n : Node} (h : n ∈ pruneAll keep parent l) :
    ∃ m ∈ l, keep parent m = true ∧ n = m.prune keep := by
  induction l with
  | nil => cases h
  | cons m l ih =>
    rw [pruneAll] at h
    split at h
    · next hkeep =>
      rcases List.mem_cons.1 h with rfl | h
      · exact ⟨m, List.mem_cons_self, hkeep, rfl⟩
      · obtain ⟨k, hk, hn⟩ := ih h
        exact ⟨k, List.mem_cons_of_mem _ hk, hn⟩
    · obtain ⟨k, hk, hn⟩ := ih h
      exact ⟨k, List.mem_cons_of_mem _ hk, hn⟩

theorem isUndefined_prune (keep : Option Tag → Node → Bool) (n : Node) : isUndefined (n.prune keep) = isUndefined n := by
  cases n <;> rfl

theorem isUndefined_normalizeTextElement (n : Node) : isUndefined (normalizeTextElement n) = isUndefined n := by
  cases n with
  | element tag text children tail =>
    rw [normalizeTextElement]
    split
    · have hvalue : preserveSpace.name.same valueName = false := by decide
      have hbare : preserveSpace.name.same bareValueName = false := by decide
      simp only [isUndefined, Node.attribute?, tag?, Option.bind_some]
      split
      · rw [Tag.attribute?_setAttribute_of_ne hvalue, Tag.attribute?_setAttribute_of_ne hbare]
      · rfl
    · rfl
  | comment | instruction => rfl

theorem holdsDefined_of_leaf (hchildren : node.children = []) : HoldsDefined node := by
  rw [HoldsDefined, holdsUndefined, hchildren, List.any_nil, Bool.and_false]

/-- What is undefined in a group goes with its first look at the group. -/
theorem holdsDefined_pruneAll (nodes : List Node) (parent : Option Tag) : Everywhere HoldsDefined
    (pruneAll (fun parent node => !(parent.any isPropertyGroup && isUndefined node)) parent nodes) := by
  induction nodes using forest_induction generalizing parent with
  | nil => exact everywhere_nil
  | element tag text children tail rest ihc ihr =>
    rw [pruneAll]
    split
    · refine everywhere_cons.2 ⟨everywhere_singleton.2 ⟨?_, ihc (some tag)⟩, ihr parent⟩
      rw [HoldsDefined, Bool.eq_false_iff]
      intro hholds
      obtain ⟨hgroup, hany⟩ := Bool.and_eq_true_iff.1 hholds
      obtain ⟨n, hn, hundefined⟩ := List.any_eq_true.1 hany
      obtain ⟨m, -, hkeep, rfl⟩ := mem_pruneAll hn
      rw [isUndefined_prune] at hundefined
      rw [show (some tag).any isPropertyGroup = true from hgroup, hundefined] at hkeep
      cases hkeep
    · exact ihr parent
  | comment content tail rest ih | instruction target content tail rest ih =>
    rw [pruneAll]
    split
    · exact everywhere_cons.2 ⟨everywhere_singleton.2 ⟨holdsDefined_of_leaf rfl, everywhere_nil⟩, ih parent⟩
    · exact ih parent

theorem HoldsDefined.pruneAll (keep : Option Tag → Node → Bool) (nodes : List Node) (parent : Option Tag) :
    Everywhere HoldsDefined nodes → Everywhere HoldsDefined (Xml.pruneAll keep parent nodes) := by
  induction nodes using forest_induction generalizing parent with
  | nil => exact id
  | element tag text children tail rest ihc ihr =>
    intro h
    obtain ⟨hnode, hrest⟩ := everywhere_cons.1 h
    obtain ⟨hroot, hbelow⟩ := everywhere_singleton.1 hnode
    rw [Xml.pruneAll]
    split
    · refine everywhere_cons.2 ⟨everywhere_singleton.2 ⟨?_, ihc (some tag) hbelow⟩, ihr parent hrest⟩
      refine HoldsDefined.of_staysDefined rfl (fun n hn hundefined => ?_) hroot
      obtain ⟨m, hm, -, rfl⟩ := mem_pruneAll hn
      exact ⟨m, hm, by rwa [isUndefined_prune] at hundefined⟩
    · exact ihr parent hrest
  | comment content tail rest ih | instruction target content tail rest ih =>
    intro h
    obtain ⟨hnode, hrest⟩ := everywhere_cons.1 h
    rw [Xml.pruneAll]
    split
    · exact everywhere_cons.2 ⟨hnode, ih parent hrest⟩
    · exact ih parent hrest

theorem holdsDefined_removeUndefinedStyles (f : Fragment) : Everywhere HoldsDefined (removeUndefinedStyles f).children :=
  HoldsDefined.pruneAll _ _ _ (holdsDefined_pruneAll _ _)

theorem HoldsDefined.normalizeTextElement (h : HoldsDefined node) : HoldsDefined (Repair.normalizeTextElement node) := by
  cases node with
  | element tag text children tail =>
    rw [Repair.normalizeTextElement]
    split
    · refine HoldsDefined.of_staysDefined ?_ (fun n hn hundefined => ⟨n, hn, hundefined⟩) h
      split
      · exact Tag.name_setAttribute ..
      · rfl
    · exact h
  | comment | instruction => exact h

theorem HoldsDefined.normalizeTexts (nodes : List Node) : Everywhere HoldsDefined nodes →
    Everywhere HoldsDefined (rebuildAll (fun node => [Repair.normalizeTextElement node]) nodes) := by
  have hdefined : ∀ nodes : List Node, List.Forall₂ (fun m n => isUndefined n = isUndefined m) nodes
      (rebuildAll (fun node => [Repair.normalizeTextElement node]) nodes) := by
    intro nodes
    induction nodes with
    | nil => exact .nil
    | cons n nodes ih =>
      cases n with
      | element tag text children tail =>
        refine List.Forall₂.cons ?_ ih
        exact isUndefined_normalizeTextElement (element tag text (rebuildAll _ children) tail)
      | comment | instruction => exact List.Forall₂.cons rfl ih
  induction nodes using forest_induction with
  | nil => exact id
  | element tag text children tail rest ihc ihr =>
    intro h
    obtain ⟨hnode, hrest⟩ := everywhere_cons.1 h
    obtain ⟨hroot, hbelow⟩ := everywhere_singleton.1 hnode
    rw [rebuildAll, Node.rebuild, List.singleton_append]
    refine everywhere_cons.2 ⟨everywhere_singleton.2 ⟨HoldsDefined.normalizeTextElement ?_, ?_⟩, ihr hrest⟩
    · exact HoldsDefined.of_staysDefined rfl (staysDefined_of_forall₂ (hdefined children)) hroot
    · rw [children_normalizeTextElement]
      exact ihc hbelow
  | comment content tail rest ih | instruction target content tail rest ih =>
    intro h
    obtain ⟨hnode, hrest⟩ := everywhere_cons.1 h
    exact everywhere_cons.2 ⟨hnode, ih hrest⟩

/-! ### All repairs -/

theorem isComplete_iff : IsComplete node ↔ HasBody node ∧ HasScriptSlots node ∧ HoldsDefined node :=
  ⟨fun h => ⟨h.body, h.script, h.styles⟩, fun ⟨hbody, hscript, hstyles⟩ => ⟨hbody, hscript, hstyles⟩⟩

/-- The last three repairs complete what has bodies. -/
theorem isComplete_foldl (start : Fragment × RepairState) (hstart : Everywhere HasBody start.1.children) :
    Everywhere IsComplete ([RepairRule.repairInvalidScripts, .removeUndefinedStyles, .normalizeTexts].foldl
      (fun (f, state) rule => rule.apply state f) start).1.children := by
  have hbody := asksSlots_hasBody.foldl [.repairInvalidScripts, .removeUndefinedStyles, .normalizeTexts] (by decide) start hstart
  have hscripts := asksSlots_hasScriptSlots.foldl [.removeUndefinedStyles, .normalizeTexts] (by decide)
    (repairInvalidScripts start.1, start.2) (hasScriptSlots_repairInvalidScripts start.1)
  have hstyles := HoldsDefined.normalizeTexts _ (holdsDefined_removeUndefinedStyles (repairInvalidScripts start.1))
  exact fun n hn => ⟨hbody n hn, hscripts n hn, hstyles n hn⟩

/-- The repairs complete a fragment, whatever comes before the adoption of bodies and between that and the last three. -/
theorem isComplete_applyRules (front middle : List RepairRule) (hmiddle : middle ⊆ lateRules) (f : Fragment) :
    Everywhere IsComplete (f.applyRules (front ++ .adoptIntegrands :: middle ++
      [.repairInvalidScripts, .removeUndefinedStyles, .normalizeTexts])).children := by
  rw [Fragment.applyRules, List.foldl_append, List.foldl_append, List.foldl_cons]
  exact isComplete_foldl _ (asksSlots_hasBody.foldl middle hmiddle _ (hasBody_adoptIntegrands _))

/-- After the repair everything is complete, whatever the fragment was. -/
theorem Fragment.isComplete_repair (f : Fragment) : Everywhere IsComplete (f.repair []).children := by
  have happly : ∀ middle : List RepairRule, middle ⊆ lateRules → Everywhere IsComplete (f.applyRules
      ([.stripForeign, .unwrapBoxes, .rebuildIntegrals, .repairNorms] ++ .adoptIntegrands :: middle ++
        [.repairInvalidScripts, .removeUndefinedStyles, .normalizeTexts])).children :=
    fun middle hmiddle => isComplete_applyRules _ middle hmiddle f
  rw [Fragment.repair]
  split
  · exact happly [.placeIntegralLimits, .wrapScriptBases, .wrapBrackets, .wrapBraces, .rebuildFractions] (by decide)
  · exact happly [.placeIntegralLimits, .wrapScriptBases, .wrapBrackets, .wrapBraces, .rebuildFractions,
      .promoteDelimiters] (by decide)

/-! ### Written and read again -/

/-- The nodes have the names and the values that the old ones have. -/
def Alike (old new : Node) : Prop := SameName old new ∧ isUndefined new = isUndefined old

theorem IsComplete.of_alike {tag tag' : Tag} {text text' : Option Text} {l l' : List Node} {tail tail' : Text}
    (h : IsComplete (element tag text l tail)) (hname : tag'.name = tag.name) (hl : List.Forall₂ Alike l l') :
    IsComplete (element tag' text' l' tail') := by
  obtain ⟨hbody, hscript, hstyles⟩ := isComplete_iff.1 h
  have hslots : KeepsSlots l l' := .of_sameName (hl.imp fun _ _ halike => halike.1)
  refine isComplete_iff.2 ⟨asksSlots_hasBody.keeps hname hslots hbody, asksSlots_hasScriptSlots.keeps hname hslots hscript, ?_⟩
  exact HoldsDefined.of_staysDefined hname (staysDefined_of_forall₂ (hl.imp fun _ _ halike => halike.2)) hstyles

theorem alike_undeclareds (l : List Node) : List.Forall₂ Alike l (undeclareds l) := by
  induction l with
  | nil => exact .nil
  | cons n l ih => exact .cons (by cases n <;> exact ⟨rfl, rfl⟩) ih

theorem alike_rereads (l : List Node) : List.Forall₂ Alike l (rereads l) := by
  induction l with
  | nil => exact .nil
  | cons n l ih => exact .cons (by cases n <;> exact ⟨rfl, rfl⟩) ih

theorem IsComplete.undeclared (h : IsComplete node) : IsComplete (Omml.undeclared node) := by
  cases node with
  | element tag text children tail => exact h.of_alike rfl (alike_undeclareds children)
  | comment | instruction => exact h

theorem IsComplete.reread (h : IsComplete node) : IsComplete node.reread := by
  cases node with
  | element tag text children tail => exact h.of_alike rfl (alike_rereads children)
  | comment | instruction => exact ⟨h.body, h.script, h.styles⟩

end EquationExport.Omml
