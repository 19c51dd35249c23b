import EquationExport.Proofs.Omml.Congruence
import EquationExport.Proofs.Omml.Firm

/-!
# Repair retains fractions that stand firm

Each repair takes away nodes that hold nothing firm, and what it builds holds what was firm in the nodes that it
builds from. So a fragment that holds a fraction which stands firm holds a fraction after any repairs.
-/

namespace EquationExport.Omml

open Xml Xml.Node Repair

variable {node : Node} {l : List Node} {name : Text}

/-! ### Boxes, properties and texts -/

theorem Retains.drop (hfirm : isFirm node = false) (hslots : slotLabels [node] = []) : Retains [node] [] := by
  refine ⟨fun h => ?_, fun _ => hslots.symm⟩
  rw [anyFirm_singleton, hfirm] at h
  cases h

theorem Retains.foreign (node : Node) (hmath : node.isMath = false) : Retains [node] [] := by
  refine Retains.drop ?_ (by simp [slotLabels, hmath])
  rw [← Bool.not_eq_true]
  intro hfirm
  rw [isMath_of_isFirm hfirm] at hmath
  cases hmath

theorem Retains.unwrapBox (node : Node) : Retains [node] (unwrapBox node) := by
  unfold Repair.unwrapBox
  split
  · next slot hbox hchildren =>
    split
    · next hslot =>
      refine Retains.of_object (List.mem_singleton.2 rfl) hbox (by decide) (by decide) fun h => ?_
      rwa [anyFirm_singleton, isFirm_of_isPlainHolder (by decide) hbox, hchildren, anyFirm_singleton,
        isFirm_of_isPlainHolder (by decide) hslot] at h
    · exact .refl _
  · exact .refl _

theorem Retains.removeUndefinedStyles (f : Fragment) : Retains f.children (removeUndefinedStyles f).children := by
  have hnone : ∀ t ∈ (none : Option Tag), isPropertyGroup t = false := by simp
  refine Retains.trans (Retains.pruneAll (fun tag n htag hkeep => ?_) f.children none hnone)
    (Retains.pruneAll (fun tag n _ hkeep => ?_) _ none hnone)
  · have hgroup : tag.any isPropertyGroup = false := by
      cases tag with
      | none => rfl
      | some t => exact htag t rfl
    simp [hgroup] at hkeep
  · have hlabel : label n = "rPr" := by
      have hempty : isEmptyRunProperties n = true := by simpa using hkeep
      exact label_eq_of_isNamed (Bool.and_eq_true_iff.1 hempty).1
    have hgroup : (label n).endsWith "Pr" = true := by rw [hlabel]; decide
    exact Retains.drop (isFirm_of_group hgroup) (slotLabels_of_group hgroup)

theorem Retains.normalizeTextElement (node : Node) : Retains [node] [normalizeTextElement node] := by
  cases node with
  | element tag text children tail =>
    rw [Repair.normalizeTextElement]
    split
    · refine Retains.inside ?_ (.refl _)
      split
      · exact Tag.name_setAttribute ..
      · rfl
    · exact .refl _
  | comment | instruction => exact .refl _

/-! ### Scripts -/

/-- A node that sets scripts is no slot. -/
theorem Retains.of_isScript {new : List Node} (hscript : node.isScript = true)
    (h : isFirm node = true → anyFirm new = true) : Retains [node] new := by
  obtain ⟨name, hname, hnamed⟩ := exists_scriptName hscript
  have hall : ∀ x ∈ scriptNames, x ∉ slotNames ∧ x.endsWith "Pr" = false := by decide
  exact Retains.of_object (List.mem_singleton.2 rfl) hnamed (hall name hname).1 (hall name hname).2
    fun hfirm => h (by rwa [anyFirm_singleton] at hfirm)

/-- Scripts that are firm have their slots, and one of these is firm. -/
theorem exists_firm_slot (hfirm : isFirm node = true) (hscript : node.isScript = true) :
    slotLabels node.children = scriptSlots node ∧ ∃ slot ∈ node.children, isFirm slot = true := by
  obtain ⟨name, hname, hnamed⟩ := exists_scriptName hscript
  have hfraction : node.isNamed "f" = false := by
    have hall : ∀ x ∈ scriptNames, (x == ("f" : Text)) = false := by decide
    exact isNamed_of_isNamed hnamed (hall name hname)
  obtain ⟨hslots, hany⟩ := anyFirm_children hfirm hfraction
  exact ⟨by simpa [hasScriptSlots, hscript] using hslots, anyFirm_iff.1 hany⟩

/-- A slot that is among the slots of a construct is found by its name. -/
theorem isSome_slot?_of_mem (h : name ∈ slotLabels node.children) : (node.slot? name).isSome = true := by
  obtain ⟨hlabel, -⟩ := List.mem_filter.1 h
  obtain ⟨slot, hslot, rfl⟩ := List.mem_map.1 hlabel
  obtain ⟨hmem, hmath⟩ := List.mem_filter.1 hslot
  rw [slot?, List.find?_isSome]
  exact ⟨slot, hmem, by rw [isNamed_eq_label hmath, beq_self_eq_true]⟩

/-- Of slots that are there once, each is the one that is found by its name. -/
theorem find?_of_nodup {slot : Node} (hnodup : (slotLabels l).Nodup) (hmem : slot ∈ l) (hnamed : slot.isNamed name = true)
    (hgroup : name.endsWith "Pr" = false) : l.find? (·.isNamed name) = some slot := by
  induction l with
  | nil => cases hmem
  | cons n l ih =>
    rw [← List.singleton_append, slotLabels_append] at hnodup
    rcases List.mem_cons.1 hmem with rfl | hmem
    · rw [List.find?_cons, hnamed]
    · have hother : n.isNamed name = false := by
        rw [← Bool.not_eq_true]
        intro hn
        obtain ⟨front, rest, rfl⟩ := List.append_of_mem hmem
        have htwice : name ∈ slotLabels (front ++ slot :: rest) := by
          rw [← List.singleton_append, slotLabels_append, slotLabels_append, slotLabels_of_isNamed hnamed hgroup]
          simp
        rw [slotLabels_of_isNamed hn hgroup] at hnodup
        exact (List.nodup_cons.1 hnodup).1 htwice
      rw [List.find?_cons, hother]
      exact ih (List.nodup_append.1 hnodup).2.1 hmem

theorem nodup_scriptSlots (node : Node) : (scriptSlots node).Nodup := by
  unfold scriptSlots requiredSlots
  split
  · decide
  · split <;> decide

/-- What is firm in scripts that are firm is in one of the slots, which is found by its name. -/
theorem exists_slotChildren (hfirm : isFirm node = true) (hscript : node.isScript = true) :
    ∃ name ∈ slotNames, anyFirm (slotChildren node name) = true := by
  obtain ⟨hslots, slot, hmem, hslot⟩ := exists_firm_slot hfirm hscript
  have hholder := isHolder_of_isFirm hslot
  simp only [isHolder, Bool.and_eq_true, Bool.not_eq_true'] at hholder
  obtain ⟨⟨hmath, -⟩, hgroup⟩ := hholder
  have hnamed : slot.isNamed (label slot) = true := by rw [isNamed_eq_label hmath, beq_self_eq_true]
  have hname : label slot ∈ slotNames := by
    refine scriptSlots_subset node _ (hslots ▸ ?_)
    exact List.mem_filter.2 ⟨List.mem_map.2 ⟨slot, List.mem_filter.2 ⟨hmem, hmath⟩, rfl⟩, by simp [hgroup]⟩
  refine ⟨label slot, hname, ?_⟩
  have hfind : node.slot? (label slot) = some slot :=
    find?_of_nodup (hslots ▸ nodup_scriptSlots node) hmem hnamed hgroup
  have hplain : ∀ x ∈ slotNames, IsPlainHolder x := by decide
  rw [slotChildren, hfind]
  rwa [isFirm_of_isPlainHolder (hplain _ hname) hnamed] at hslot

theorem Retains.promoteScript (node : Node) : Retains [node] [promoteScript node] := by
  unfold Repair.promoteScript
  split
  · next hscript =>
    split
    · next base hbase =>
      dsimp only
      split
      · next hsign =>
        refine Retains.of_isScript hscript fun hfirm => ?_
        obtain ⟨name, hname, hany⟩ := exists_slotChildren hfirm hscript
        rw [anyFirm_singleton]
        have hcases : name = "e" ∨ name = "sub" ∨ name = "sup" := by simpa [slotNames, Text.ofStrings] using hname
        rcases hcases with rfl | rfl | rfl
        · -- the base is the operator, which is a run
          have hrun : base.isRun = true := isRun_of_glyphs (ne_nil_of_length (length_of_isGlyphOf hsign))
          rw [hbase, anyFirm_singleton, isFirm_of_isRun hrun] at hany
          cases hany
        · exact isFirm_nary (.inl hany)
        · exact isFirm_nary (.inr (.inl hany))
      · exact .refl _
    · exact .refl _
  · exact .refl _

theorem Retains.dissolveInvalid (node : Node) : Retains [node] (dissolveInvalid node) := by
  unfold Repair.dissolveInvalid
  split
  · next hscript =>
    refine Retains.of_isScript hscript fun hfirm => ?_
    obtain ⟨hslots, -⟩ := exists_firm_slot hfirm hscript
    have hsome : ∀ name ∈ scriptSlots node, (node.slot? name).isSome = true := fun name hname =>
      isSome_slot?_of_mem (by rwa [hslots])
    obtain ⟨base, hbase⟩ := Option.isSome_iff_exists.1 (hsome "e" List.mem_cons_self)
    rw [hbase]
    simp only [List.all_eq_true.2 fun name hname => hsome name (List.mem_cons_of_mem _ hname), if_true]
    rwa [anyFirm_singleton]
  · exact .refl _

/-! ### Bodies of operators -/

theorem Retains.ensureBody (node : Node) : Retains [node] [ensureBody node] := by
  unfold Repair.ensureBody
  split
  · next h =>
    have hnary : node.isNamed "nary" = true := (Bool.and_eq_true_iff.1 h).1
    refine Retains.of_object (List.mem_singleton.2 rfl) hnary (by decide) (by decide) fun hfirm => ?_
    rw [anyFirm_singleton] at hfirm ⊢
    cases node with
    | element tag text children tail =>
      have hnamed : ∀ l, (element tag text l tail).isNamed "nary" = true := fun _ => hnary
      rw [isFirm_of_isPlainHolder (by decide) hnary] at hfirm
      rw [withChildren_element, isFirm_of_isPlainHolder (by decide) (hnamed _), children_element, anyFirm_append]
      exact .inl hfirm
    | comment | instruction => cases hnary
  · exact .refl _

/-- The run that an operator adopts holds nothing firm. -/
theorem Retains.appendToBody {run : Node} (hnary : node.isNamed "nary" = true) (hrun : run.isRun = true) :
    Retains [node, run] [appendToBody node run] := by
  refine Retains.of_object List.mem_cons_self hnary (by decide) (by decide) fun hfirm => ?_
  rw [anyFirm_cons, anyFirm_singleton, isFirm_of_isRun hrun, Bool.or_false] at hfirm
  cases node with
  | element tag text children tail =>
    have hnamed : ∀ l, (element tag text l tail).isNamed "nary" = true := fun _ => hnary
    rw [isFirm_of_isPlainHolder (by decide) hnary, children_element] at hfirm
    rw [Repair.appendToBody, withChildren_element, children_element, anyFirm_singleton,
      isFirm_of_isPlainHolder (by decide) (hnamed _), children_element]
    rcases modifyFirst_cases (·.isNamed "e") (fun body => body.withChildren (body.children ++ [run])) children with
      ⟨heq, -⟩ | ⟨front, body, rest, rfl, hbody, -, heq⟩
    · rwa [heq]
    · rw [heq]
      refine ((Retains.refl front).append (.cons ?_ (.refl rest))).firm hfirm
      cases body with
      | element btag btext bchildren btail =>
        have hslot : ∀ l, (element btag btext l btail).isNamed "e" = true := fun _ => hbody
        refine ⟨fun h => ?_, fun _ => slotLabels_of_name? rfl⟩
        rw [anyFirm_singleton, isFirm_of_isPlainHolder (by decide) hbody] at h
        rw [withChildren_element, anyFirm_singleton, isFirm_of_isPlainHolder (by decide) (hslot _), children_element,
          anyFirm_append]
        exact .inl h
      | comment | instruction => cases hbody
  | comment | instruction => cases hnary

theorem Retains.placeLimits (node : Node) : Retains [node] [placeLimits node] := by
  unfold Repair.placeLimits
  split
  · exact .setProperty (by decide) _ _ _
  · exact .refl _

/-! ### Runs -/

/-- Among the old nodes is a run. -/
theorem Retains.of_run {old new : List Node} (hmem : node ∈ old) (hrun : node.isRun = true)
    (h : anyFirm old = true → anyFirm new = true) : Retains old new :=
  .of_object hmem hrun (by decide) (by decide) h

/-- Where all objects are runs, none is firm. -/
theorem anyFirm_of_runs (hruns : ∀ n ∈ l, n.isRun = true) : anyFirm l = false := by
  rw [← Bool.not_eq_true, anyFirm_iff]
  rintro ⟨n, hn, hfirm⟩
  rw [isFirm_of_isRun (hruns n hn)] at hfirm
  cases hfirm

theorem Retains.splitNormRun? {new : List Node} (h : splitNormRun? node = some new) : Retains [node] new := by
  have hrun := isRun_of_splitNormRun? h
  refine .of_run (List.mem_singleton.2 rfl) hrun fun hfirm => ?_
  rw [anyFirm_singleton, isFirm_of_isRun hrun] at hfirm
  cases hfirm

/-- The delimiters are runs, so what is firm stands between them. -/
theorem Retains.enclose {first last : Node} {inner : List Node} (opening closing : Text) (hfirst : first.isRun = true)
    (hlast : last.isRun = true) : Retains (first :: (inner ++ [last])) [delimiter opening closing inner] := by
  refine .of_run List.mem_cons_self hfirst fun h => ?_
  rw [anyFirm_cons, isFirm_of_isRun hfirst, Bool.false_or, anyFirm_append, anyFirm_singleton, isFirm_of_isRun hlast] at h
  rw [anyFirm_singleton, isFirm_delimiter]
  exact h.resolve_right (by decide)

theorem Retains.leaveOpen {first : Node} {inner : List Node} (opening : Text) (hfirst : first.isRun = true) :
    Retains (first :: inner) [delimiter opening [] inner] := by
  refine .of_run List.mem_cons_self hfirst fun h => ?_
  rwa [anyFirm_cons, isFirm_of_isRun hfirst, Bool.false_or, ← isFirm_delimiter opening [], ← anyFirm_singleton] at h

/-- What is built is a fraction itself. -/
theorem Retains.bracketedFraction (opening closing : Text) (objects : List Node) (h : ∃ n ∈ objects, n.isRun = true) :
    Retains objects [bracketedFraction opening closing objects] := by
  obtain ⟨run, hmem, hrun⟩ := h
  refine .of_run hmem hrun fun _ => ?_
  rw [anyFirm_singleton, Repair.bracketedFraction, isFirm_delimiter, anyFirm_singleton, isFirm_fraction]

/-! ### All repairs -/

theorem steps_retains : Steps Retains where
  refl := Retains.refl
  trans := Retains.trans
  append := Retains.append
  inside := Retains.inside rfl
  foreign := Retains.foreign
  unwrapBox := Retains.unwrapBox
  promoteScript := Retains.promoteScript
  splitNormRun _ _ := Retains.splitNormRun?
  ensureBody := Retains.ensureBody
  appendToBody _ _ := Retains.appendToBody
  placeLimits := Retains.placeLimits
  integral sign lower upper old _ hne hruns := by
    obtain ⟨run, hmem⟩ := List.exists_mem_of_ne_nil old hne
    refine .of_run hmem (hruns run hmem) fun h => ?_
    rw [anyFirm_of_runs hruns] at h
    cases h
  enclose opening closing _ _ _ := Retains.enclose opening closing
  leaveOpen opening _ _ := Retains.leaveOpen opening
  dissolveInvalid := Retains.dissolveInvalid
  normalizeTextElement := Retains.normalizeTextElement

/-- A fragment with a fraction that stands firm holds a fraction after repair, whichever repairs are left out. -/
theorem Fragment.hasFraction_repair_of_holdsFirm {f : Fragment} (h : f.holdsFirm = true) (skip : List Text) :
    (f.repair skip).hasFraction = true := by
  have hrules : ∀ rules, (f.applyRules rules).hasFraction = true := fun rules =>
    exists_fraction_of_anyFirm _ ((steps_retains.foldl rules (fun _ => Retains.bracketedFraction)
      (fun _ => Retains.removeUndefinedStyles) (f, f.repairState)).firm h)
  rw [Fragment.repair]
  split
  · exact hrules _
  · exact hrules _

end EquationExport.Omml
