import EquationExport.Proofs.Omml.Concerns
import EquationExport.Proofs.Omml.Lasting
import EquationExport.Proofs.Omml.Retain
import EquationExport.Proofs.Omml.Settled

/-!
# Slots that are kept

A property may ask of n-ary operators and scripts that they have slots, and of nothing else anything. The repairs that
come after the adoption of bodies build no such construct, and they take no slot away from one. So a property of this
kind holds everywhere after each of them if it did before.
-/

namespace EquationExport.Omml

open Xml Xml.Node Repair

variable {P : Node → Prop} {node : Node} {name : Text} {l : List Node} {f : Fragment}

/-! ### Names of children -/

/-- For each slot among the old nodes there is one among the new. -/
def KeepsSlots (old new : List Node) : Prop :=
  ∀ name ∈ slotNames, (∃ n ∈ old, n.isNamed name = true) → ∃ n ∈ new, n.isNamed name = true

namespace KeepsSlots

variable {a b c d : List Node}

theorem refl (l : List Node) : KeepsSlots l l := fun _ _ h => h

theorem trans (h : KeepsSlots a b) (h' : KeepsSlots b c) : KeepsSlots a c :=
  fun name hname ha => h' name hname (h name hname ha)

theorem append (h : KeepsSlots a b) (h' : KeepsSlots c d) :
    KeepsSlots (a ++ c) (b ++ d) := by
  rintro name hname ⟨n, hn, hnamed⟩
  rcases List.mem_append.1 hn with hn | hn
  · obtain ⟨m, hm, hm'⟩ := h name hname ⟨n, hn, hnamed⟩
    exact ⟨m, List.mem_append_left _ hm, hm'⟩
  · obtain ⟨m, hm, hm'⟩ := h' name hname ⟨n, hn, hnamed⟩
    exact ⟨m, List.mem_append_right _ hm, hm'⟩

theorem of_subset (h : a ⊆ b) : KeepsSlots a b := fun _ _ ⟨n, hn, hnamed⟩ => ⟨n, h hn, hnamed⟩

theorem of_sameName (h : List.Forall₂ SameName a b) : KeepsSlots a b := by
  induction h with
  | nil => exact refl []
  | cons hn _ ih =>
    refine append (a := [_]) (b := [_]) ?_ ih
    rintro name - ⟨n, hmem, hnamed⟩
    obtain rfl := List.mem_singleton.1 hmem
    exact ⟨_, List.mem_singleton.2 rfl, by rwa [isNamed, hn, ← isNamed]⟩

/-- A slot that stays in its place, whatever is done inside it. -/
theorem of_isNamed {n : Node} (hnamed : ∀ slot ∈ slotNames, node.isNamed slot = true → n.isNamed slot = true) (hn : n ∈ b) :
    KeepsSlots [node] b := by
  rintro name hname ⟨m, hm, hm'⟩
  rw [List.mem_singleton.1 hm] at hm'
  exact ⟨n, hn, hnamed name hname hm'⟩

end KeepsSlots

theorem isSome_slot?_iff : (node.slot? name).isSome = true ↔ ∃ n ∈ node.children, n.isNamed name = true := by
  rw [slot?, List.find?_isSome]

theorem sameName_modifyFirst {p : Node → Bool} {F : Node → Node} (hF : ∀ n, SameName n (F n)) (l : List Node) :
    List.Forall₂ SameName l (modifyFirst p F l) := by
  have hrefl : ∀ l : List Node, List.Forall₂ SameName l l := fun l => List.forall₂_same.2 fun _ _ => rfl
  rcases modifyFirst_cases p F l with ⟨heq, -⟩ | ⟨front, n, rest, rfl, -, -, heq⟩
  · rw [heq]
    exact hrefl l
  · rw [heq]
    exact List.rel_append (hrefl front) (.cons (hF n) (hrefl rest))

theorem isScript_of_isSlot (hname : name ∈ slotNames) (h : node.isNamed name = true) : node.isScript = false := by
  have hall : ∀ name ∈ slotNames, name ∉ scriptNames := by decide
  exact isScript_of_isNamed h (hall name hname)

/-! ### Properties that ask for slots -/

/-- The property asks of n-ary operators and scripts for slots, and of other nodes nothing. -/
structure AsksSlots (P : Node → Prop) : Prop where
  keeps : ∀ {tag tag' : Tag} {text text' : Option Text} {l l' : List Node} {tail tail' : Text}, tag'.name = tag.name →
    KeepsSlots l l' → P (element tag text l tail) → P (element tag' text' l' tail')
  other : ∀ node : Node, node.isNamed "nary" = false → node.isScript = false → P node

/-- The names of the constructs that are asked for slots. -/
def askedNames : List Text := "nary" :: scriptNames

/-- The repairs that come after the adoption of bodies. -/
def lateRules : List RepairRule :=
  [.placeIntegralLimits, .wrapScriptBases, .wrapBrackets, .wrapBraces, .rebuildFractions, .promoteDelimiters,
    .repairInvalidScripts, .removeUndefinedStyles, .normalizeTexts]

namespace AsksSlots

variable (h : AsksSlots P)
include h

/-! ### Other nodes -/

theorem concerns : Concerns askedNames P := by
  intro node hother
  rw [isOneOf, askedNames, List.any_cons, Bool.or_eq_false_iff] at hother
  exact h.other node hother.1 hother.2

theorem group (hnode : node.tag?.any isPropertyGroup = true) : P node := by
  have hall : ∀ name ∈ askedNames, name.endsWith "Pr" = false := by decide
  have hnot : ∀ name ∈ askedNames, node.isNamed name = false := by
    intro name hname
    rw [Bool.eq_false_iff]
    intro hnamed
    obtain ⟨tag, htag, hgroup⟩ := (Option.any_eq_true _ _).1 hnode
    have hlabel : tag.name.localPart = name := by
      rw [← label_eq_of_isNamed hnamed, label, localPart?, name?, htag]
      rfl
    rw [isPropertyGroup, hlabel, hall name hname] at hgroup
    cases hgroup
  exact h.concerns node (List.any_eq_false.2 fun name hname => Bool.eq_false_iff.1 (hnot name hname))

/-! ### Trees -/

/-- A change from the leaves up that keeps slots in their places. -/
theorem rebuildAll {F : Node → List Node} (hslots : ∀ n, KeepsSlots [n] (F n))
    (hF : ∀ n, Everywhere P [n] → Everywhere P (F n)) (nodes : List Node) :
    Everywhere P nodes → Everywhere P (Xml.rebuildAll F nodes) := by
  have hkeeps : ∀ nodes, KeepsSlots nodes (Xml.rebuildAll F nodes) := by
    intro nodes
    induction nodes with
    | nil => exact .refl []
    | cons n nodes ih =>
      refine KeepsSlots.append (a := [n]) ?_ ih
      cases n with
      | element tag text children tail =>
        exact KeepsSlots.trans (b := [element tag text (Xml.rebuildAll F children) tail]) (.of_sameName (.cons rfl .nil))
          (hslots _)
      | comment | instruction => exact hslots _
  induction nodes using forest_induction with
  | nil => exact id
  | element tag text children tail rest ihc ihr =>
    intro hnodes
    obtain ⟨hnode, hrest⟩ := everywhere_cons.1 hnodes
    obtain ⟨hroot, hbelow⟩ := everywhere_singleton.1 hnode
    refine everywhere_append.2 ⟨hF _ (everywhere_singleton.2 ⟨?_, ihc hbelow⟩), ihr hrest⟩
    exact h.keeps rfl (hkeeps children) hroot
  | comment content tail rest ih | instruction target content tail rest ih =>
    intro hnodes
    obtain ⟨hnode, hrest⟩ := everywhere_cons.1 hnodes
    exact everywhere_append.2 ⟨hF _ hnode, ih hrest⟩

/-- Nodes are left out, but no slot outside groups of properties. -/
theorem pruneAll {keep : Option Tag → Node → Bool}
    (hkeep : ∀ tag, isPropertyGroup tag = false → ∀ name ∈ slotNames, ∀ n : Node, n.isNamed name = true → keep (some tag) n = true)
    (nodes : List Node) : ∀ parent, Everywhere P nodes → Everywhere P (Xml.pruneAll keep parent nodes) := by
  have hslots : ∀ tag, isPropertyGroup tag = false → ∀ nodes, KeepsSlots nodes (Xml.pruneAll keep (some tag) nodes) := by
    intro tag htag nodes
    induction nodes with
    | nil => exact .refl []
    | cons n nodes ih =>
      rw [Xml.pruneAll]
      split
      · refine KeepsSlots.append (a := [n]) (b := [_]) (.of_isNamed (fun slot _ hn => ?_) (List.mem_singleton.2 rfl)) ih
        cases n <;> exact hn
      · next hdropped =>
        rintro name hname ⟨m, hm, hnamed⟩
        rcases List.mem_cons.1 hm with rfl | hm
        · exact absurd (hkeep tag htag name hname _ hnamed) hdropped
        · exact ih name hname ⟨m, hm, hnamed⟩
  induction nodes using forest_induction with
  | nil => exact fun _ => id
  | element tag text children tail rest ihc ihr =>
    intro parent hnodes
    obtain ⟨hnode, hrest⟩ := everywhere_cons.1 hnodes
    obtain ⟨hroot, hbelow⟩ := everywhere_singleton.1 hnode
    rw [Xml.pruneAll]
    split
    · refine everywhere_cons.2 ⟨everywhere_singleton.2 ⟨?_, ihc (some tag) hbelow⟩, ihr parent hrest⟩
      cases hgroup : isPropertyGroup tag with
      | true => exact h.group hgroup
      | false => exact h.keeps rfl (hslots tag hgroup children) hroot
    · exact ihr parent hrest
  | comment content tail rest ih | instruction target content tail rest ih =>
    intro parent hnodes
    obtain ⟨hnode, hrest⟩ := everywhere_cons.1 hnodes
    rw [Xml.pruneAll]
    split
    · exact everywhere_cons.2 ⟨hnode, ih parent hrest⟩
    · exact ih parent hrest

/-! ### Sweeps -/

/-- A sweep puts other objects in containers alone, and these are asked for nothing. -/
theorem survives (rule : SpanRule) : Survives P rule := by
  intro tag text children tail hnode
  unfold sweepInside
  split
  · next hcontainer => exact h.concerns.container (by decide) hcontainer
  · exact h.keeps rfl (.of_sameName (sameName_sweepNodes rule children)) hnode

/-! ### Repairs of single nodes -/

theorem setProperty {group key : Text} (hgroup : group ∉ askedNames) (hkey : key ∉ askedNames) (value : Text)
    (hnode : Everywhere P [node]) : Everywhere P [node.setProperty group key value] := by
  obtain ⟨hroot, hbelow⟩ := everywhere_singleton.1 hnode
  cases node with
  | element tag text l tail =>
    have hl : Everywhere P l := hbelow
    obtain ⟨l', heq, hl', hnames⟩ := h.concerns.exists_children_setProperty value hgroup hkey tag text tail hl
    rw [heq]
    refine everywhere_singleton.2 ⟨h.keeps rfl ?_ hroot, hl'⟩
    rcases hnames with hsub | hsame
    · exact .of_subset hsub
    · exact .of_sameName hsame
  | comment | instruction => exact hnode

theorem placeLimits (n : Node) (hn : Everywhere P [n]) : Everywhere P [Repair.placeLimits n] := by
  unfold Repair.placeLimits
  split
  · exact h.setProperty (by decide) (by decide) underOver hn
  · exact hn

theorem normalizeTextElement (n : Node) (hn : Everywhere P [n]) : Everywhere P [Repair.normalizeTextElement n] := by
  obtain ⟨hroot, hbelow⟩ := everywhere_singleton.1 hn
  cases n with
  | element tag text children tail =>
    rw [Repair.normalizeTextElement]
    split
    · refine everywhere_singleton.2 ⟨h.keeps ?_ (.refl children) hroot, hbelow⟩
      split
      · exact Tag.name_setAttribute ..
      · rfl
    · exact hn
  | comment | instruction => exact hn

/-- An element with other content in its first slot for a base. -/
theorem modifyBase {F : Node → Node} (hF : ∀ n, Everywhere P [n] → Everywhere P (F n).children) (hsame : ∀ n, SameName n (F n))
    (hnode : Everywhere P [node]) : Everywhere P [node.withChildren (modifyFirst (·.isNamed "e") F node.children)] := by
  obtain ⟨hroot, hbelow⟩ := everywhere_singleton.1 hnode
  cases node with
  | element tag text children tail =>
    refine everywhere_singleton.2 ⟨h.keeps rfl (.of_sameName (sameName_modifyFirst hsame children)) hroot, ?_⟩
    refine everywhere_modifyFirst (fun base hbase hn => everywhere_singleton.2 ⟨?_, hF base hn⟩) hbelow
    have hnamed : (F base).isNamed "e" = true := by rwa [isNamed, hsame, ← isNamed]
    exact h.concerns.named hnamed (by decide)
  | comment | instruction => exact hnode

theorem wrapBases (hnode : P node) : P (Repair.wrapBases node) := by
  cases node with
  | element tag text children tail =>
    have hout : P (element tag text (wrapBasesAmong children) tail) :=
      h.keeps rfl (.of_sameName (sameName_wrapBasesAmong children)) hnode
    simp only [Repair.wrapBases]
    split
    · exact h.keeps rfl (.of_sameName (sameName_modifyFirst (fun base => name?_withChildren ..) _)) hout
    · exact hout
  | comment | instruction => exact hnode

theorem appendToBody {new : Node} (hnode : Everywhere P [node]) (hnew : Everywhere P [new]) :
    Everywhere P [Repair.appendToBody node new] := by
  refine h.modifyBase (fun body hbody => ?_) (fun body => name?_withChildren ..) hnode
  cases body with
  | element => exact everywhere_append.2 ⟨(everywhere_singleton.1 hbody).2, hnew⟩
  | comment | instruction => exact everywhere_nil

/-! ### The repairs after the adoption of bodies -/

omit h in
/-- What is no script is not taken apart. -/
theorem keepsSlots_dissolveInvalid (n : Node) : KeepsSlots [n] (dissolveInvalid n) := by
  rintro name hname ⟨m, hm, hnamed⟩
  rw [List.mem_singleton.1 hm] at hnamed
  refine ⟨n, ?_, hnamed⟩
  rw [dissolveInvalid, isScript_of_isSlot hname hnamed]
  exact List.mem_singleton.2 rfl

theorem removeUndefinedStyles (hf : Everywhere P f.children) : Everywhere P (Repair.removeUndefinedStyles f).children := by
  refine h.pruneAll (fun tag _ name hname n hn => ?_) _ _ (h.pruneAll (fun tag htag name _ n _ => ?_) _ _ hf)
  · have hall : ∀ name ∈ slotNames, (name == ("rPr" : Text)) = false := by decide
    rw [isEmptyRunProperties, isNamed_of_isNamed hn (hall name hname)]
    rfl
  · rw [Option.any_some, htag]
    rfl

theorem apply {rule : RepairRule} (hrule : rule ∈ lateRules) (state : RepairState) (hf : Everywhere P f.children) :
    Everywhere P (rule.apply state f).1.children := by
  cases rule with
  | placeIntegralLimits =>
    refine h.rebuildAll (fun n => .of_isNamed (fun slot _ hn => ?_) (List.mem_singleton.2 rfl)) h.placeLimits _ hf
    rw [Repair.placeLimits]
    split
    · rwa [isNamed_setProperty]
    · exact hn
  | wrapScriptBases => exact h.concerns.wrapBasesAmong (by decide) (fun _ => h.wrapBases) _ hf
  | wrapBrackets => exact everywhere_sweepFor (h.survives _) (h.concerns.builds_bracketSpan (by decide)) _ _ hf
  | wrapBraces => exact everywhere_sweepFor (h.survives _) (h.concerns.builds_braceSpan (by decide)) _ _ hf
  | rebuildFractions =>
    exact everywhere_sweepFor (h.survives _) (h.concerns.builds_fractionSpan (by decide) (by decide)) maxSweeps f hf
  | promoteDelimiters =>
    simp only [RepairRule.apply]
    split
    · exact hf
    · exact everywhere_sweepFor (h.survives _) (h.concerns.builds_promotionSpan (by decide)) _ _ hf
  | repairInvalidScripts =>
    exact h.rebuildAll keepsSlots_dissolveInvalid Lasting.dissolveInvalid _
      (h.rebuildAll keepsSlots_dissolveInvalid Lasting.dissolveInvalid _ hf)
  | removeUndefinedStyles => exact h.removeUndefinedStyles hf
  | normalizeTexts =>
    refine h.rebuildAll (fun n => .of_sameName (.cons ?_ .nil)) h.normalizeTextElement _ hf
    exact name?_normalizeTextElement n
  | stripForeign | unwrapBoxes | rebuildIntegrals | repairNorms | adoptIntegrands => exact absurd hrule (by decide)

theorem foldl (rules : List RepairRule) (hrules : rules ⊆ lateRules) (start : Fragment × RepairState)
    (hstart : Everywhere P start.1.children) :
    Everywhere P (rules.foldl (fun (f, state) rule => rule.apply state f) start).1.children := by
  induction rules generalizing start with
  | nil => exact hstart
  | cons rule rules ih =>
    exact ih (fun r hr => hrules (List.mem_cons_of_mem _ hr)) _ (h.apply (hrules List.mem_cons_self) start.2 hstart)

end AsksSlots

end EquationExport.Omml
