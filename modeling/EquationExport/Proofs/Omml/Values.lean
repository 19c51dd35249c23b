import EquationExport.Proofs.Omml.Base
import EquationExport.Proofs.Omml.Settled
import EquationExport.Proofs.Omml.Sweep
import EquationExport.Proofs.Xml.WellFormed
import Mathlib.Data.List.Forall2

/-!
# The values of properties, repair by repair

Which value a property of a construct has is decided by the tags of its groups of properties and of what stands in them.
Wrapping bases and sweeping change no tag there. Setting a property gives it its value. Removing undefined properties
makes the first defined one the one that counts.
-/

namespace EquationExport.Omml

open Xml Xml.Node Repair

variable {node : Node} {l l' : List Node} {group name : Text}

/-! ### Nodes with the same tags -/

/-- Two nodes have one tag. -/
def SameTag (old new : Node) : Prop := new.tag? = old.tag?

theorem SameTag.isNamed {old new : Node} (h : SameTag old new) (name : Text) : new.isNamed name = old.isNamed name := by
  rw [Node.isNamed, Node.isNamed, name?, name?, h]

/-- Nodes with one tag each, where groups of properties hold nodes with one tag each. -/
def SameGroups (old new : List Node) : Prop :=
  List.Forall₂ (fun n m => SameTag n m ∧ (n.isNamed "naryPr" = true → List.Forall₂ SameTag n.children m.children)) old new

theorem valuesOf_of_sameTag (h : List.Forall₂ SameTag l l') (name : Text) : valuesOf name l' = valuesOf name l := by
  induction h with
  | nil => rfl
  | @cons n m _ _ hn _ ih =>
    have hattribute : m.attribute? valueName = n.attribute? valueName := by rw [Node.attribute?, Node.attribute?, hn]
    cases hnamed : n.isNamed name with
    | true =>
      rw [valuesOf_cons_of_isNamed hnamed, valuesOf_cons_of_isNamed (by rw [hn.isNamed, hnamed]), hattribute, ih]
    | false =>
      have hnamed' : m.isNamed name = false := by rw [hn.isNamed, hnamed]
      simpa [valuesOf, hnamed, hnamed'] using ih

theorem SameGroups.groupValuesOf (h : SameGroups l l') (name : Text) :
    groupValuesOf "naryPr" name l' = groupValuesOf "naryPr" name l := by
  induction h with
  | nil => rfl
  | @cons n m _ _ hn _ ih =>
    obtain ⟨htag, hchildren⟩ := hn
    cases hnamed : n.isNamed "naryPr" with
    | true =>
      rw [groupValuesOf_cons_of_isNamed hnamed, groupValuesOf_cons_of_isNamed (by rw [htag.isNamed, hnamed]),
        valuesOf_of_sameTag (hchildren hnamed), ih]
    | false =>
      have hnamed' : m.isNamed "naryPr" = false := by rw [htag.isNamed, hnamed]
      simpa [Omml.groupValuesOf, hnamed, hnamed'] using ih

/-- What is done to the nodes one by one, and in a group of properties to its children one by one. -/
theorem sameGroups_map {F : Node → Node} (htag : ∀ n, SameTag n (F n))
    (hinside : ∀ n, n.isNamed "naryPr" = true → (F n).children = n.children.map F) (l : List Node) : SameGroups l (l.map F) := by
  have hall : ∀ l : List Node, List.Forall₂ SameTag l (l.map F) := fun l =>
    List.forall₂_map_right_iff.2 (List.forall₂_same.2 fun n _ => htag n)
  refine List.forall₂_map_right_iff.2 (List.forall₂_same.2 fun n _ => ⟨htag n, fun hgroup => ?_⟩)
  rw [hinside n hgroup]
  exact hall n.children

theorem sameGroups_wrapBasesAmong (l : List Node) : SameGroups l (wrapBasesAmong l) := by
  rw [wrapBasesAmong_eq_map]
  refine sameGroups_map tag?_wrapBases (fun n hgroup => ?_) l
  cases n with
  | element => rw [wrapBases_element (isScript_of_isNamed hgroup (by decide)), wrapBasesAmong_eq_map]; rfl
  | comment | instruction => cases hgroup

theorem sameGroups_sweepNodes (rule : SpanRule) (l : List Node) : SameGroups l (sweepNodes rule l).1 := by
  rw [sweepNodes_eq_map]
  refine sameGroups_map (tag?_sweepNode rule) (fun n hgroup => ?_) l
  cases n with
  | element tag text children tail =>
    have hcontainer : (element tag text children tail).isContainer = false := isOneOf_of_isNamed hgroup (by decide)
    rw [sweepNode_element, sweepInside, hcontainer, children_element, children_element, ← sweepNodes_eq_map]
    rfl
  | comment | instruction => cases hgroup

/-! ### A property that is set -/

/-- A property that is set is the first of its name. -/
theorem head?_valuesOf_of_setIn {value : Text} {old new : List Node} (h : SetIn name value old new) :
    (valuesOf name new).head? = some (some value) := by
  rcases h with ⟨front, property, rest, rfl, hnamed, hfront, rfl⟩ | ⟨front, rest, rfl, hold, rfl⟩
  · rw [valuesOf_append, valuesOf_eq_nil hfront, List.nil_append,
      valuesOf_cons_of_isNamed (by rw [isNamed_setAttribute, hnamed]), List.head?_cons]
    cases property with
    | element => exact congrArg some (Tag.attribute?_setAttribute ..)
    | comment | instruction => cases hnamed
  · rw [valuesOf_append, valuesOf_eq_nil fun m hm => hold m (List.mem_append_left _ hm), List.nil_append,
      valuesOf_cons_of_isNamed (by rw [isNamed_valueElement, beq_self_eq_true])]
    rfl

theorem property?_setProperty (group name value : Text) (tag : Tag) (text : Option Text) (l : List Node) (tail : Text) :
    ((element tag text l tail).setProperty group name value).property? group name = some value := by
  rw [property?_eq]
  rcases setProperty_cases group name value tag text l tail with
    ⟨-, heq⟩ | ⟨front, gtag, gtext, old, gtail, rest, new, -, hgroup, hfront, hset, heq⟩
  · rw [heq, children_element, groupValuesOf_cons_of_isNamed (isNamed_mathElement_self ..),
      children_mathElement, valuesOf_cons_of_isNamed (by rw [isNamed_valueElement, beq_self_eq_true])]
    rfl
  · have hgroup' : (element gtag gtext new gtail).isNamed group = true := hgroup
    rw [heq, children_element, groupValuesOf_append, groupValuesOf_eq_nil hfront, List.nil_append,
      groupValuesOf_cons_of_isNamed hgroup', List.head?_append, children_element, head?_valuesOf_of_setIn hset]
    rfl

/-! ### Undefined properties -/

theorem isUndefined_eq_false_iff : isUndefined node = false ↔
    node.attribute? valueName ≠ some ("undefined" : Text) ∧ node.attribute? bareValueName ≠ some ("undefined" : Text) := by
  rw [← beq_eq_false_iff_ne, ← beq_eq_false_iff_ne, ← Bool.or_eq_false_iff]
  rfl

/-- The properties with a name in all groups of a kind. -/
def propertiesOf (group name : Text) (l : List Node) : List Node :=
  (l.filter (·.isNamed group)).flatMap fun g => g.children.filter (·.isNamed name)

theorem property?_eq_head? (group name : Text) (tag : Tag) (text : Option Text) (l : List Node) (tail : Text) :
    (element tag text l tail).property? group name = (propertiesOf group name l).head?.bind (·.attribute? valueName) := rfl

theorem pruneAll_eq_map (keep : Option Tag → Node → Bool) (parent : Option Tag) (l : List Node) :
    pruneAll keep parent l = (l.filter (keep parent)).map (Node.prune keep) := by
  induction l with
  | nil => rfl
  | cons n l ih =>
    rw [pruneAll]
    split
    · next hkeep => rw [List.filter_cons_of_pos hkeep, List.map_cons, ih]
    · next hkeep => rw [List.filter_cons_of_neg hkeep, ih]

theorem sameTag_prune (keep : Option Tag → Node → Bool) (n : Node) : SameTag n (n.prune keep) := by
  cases n <;> rfl

theorem filter_map_prune (keep : Option Tag → Node → Bool) (name : Text) (l : List Node) :
    (l.map (Node.prune keep)).filter (·.isNamed name) = (l.filter (·.isNamed name)).map (Node.prune keep) := by
  rw [List.filter_map]
  congr 1
  exact List.filter_congr fun n _ => (sameTag_prune keep n).isNamed name

/-- Of the properties of an operator the undefined ones go. -/
theorem propertiesOf_pruneAll {tag : Tag} (htag : isPropertyGroup tag = false) (name : Text) (l : List Node) :
    propertiesOf "naryPr" name (pruneAll keepsDefined (some tag) l) =
      ((propertiesOf "naryPr" name l).filter (!isUndefined ·)).map (Node.prune keepsDefined) := by
  have hall : l.filter (keepsDefined (some tag)) = l := List.filter_eq_self.2 fun n _ => by simp [keepsDefined, htag]
  -- the groups stay, and in each of them the properties that are defined
  have hgroup : ∀ g ∈ l.filter (·.isNamed "naryPr"), (g.prune keepsDefined).children.filter (·.isNamed name) =
      ((g.children.filter (·.isNamed name)).filter (!isUndefined ·)).map (Node.prune keepsDefined) := by
    intro g hg
    have hnamed : g.isNamed "naryPr" = true := by simpa using (List.mem_filter.1 hg).2
    cases g with
    | element gtag gtext children gtail =>
      have hgtag : isPropertyGroup gtag = true := by
        have hlabel := label_eq_of_isNamed hnamed
        rw [isPropertyGroup, show gtag.name.localPart = "naryPr" from hlabel]
        decide
      have hkeep : keepsDefined (some gtag) = (!isUndefined ·) := by
        funext n
        simp [keepsDefined, hgtag]
      rw [Node.prune, children_element, children_element, pruneAll_eq_map, filter_map_prune, hkeep, List.filter_filter,
        List.filter_filter]
      simp only [Bool.and_comm]
    | comment | instruction => cases hnamed
  rw [propertiesOf, pruneAll_eq_map, hall, filter_map_prune, List.flatMap_map, propertiesOf, List.filter_flatMap,
    List.map_flatMap]
  exact List.flatMap_congr hgroup

/-- Without its undefined properties an operator has the value of the first that is defined. -/
theorem property?_pruneAll {tag : Tag} (htag : isPropertyGroup tag = false) (text : Option Text) (l : List Node) (tail name : Text) :
    (element tag text (pruneAll keepsDefined (some tag) l) tail).property? "naryPr" name =
      ((propertiesOf "naryPr" name l).find? (!isUndefined ·)).bind (·.attribute? valueName) := by
  rw [property?_eq_head?, propertiesOf_pruneAll htag, List.head?_map, List.head?_filter]
  cases (propertiesOf "naryPr" name l).find? (!isUndefined ·) with
  | none => rfl
  | some n => exact congrArg (Option.bind · (·.attribute? valueName)) (sameTag_prune keepsDefined n)

theorem mem_propertiesOf {n : Node} (h : n ∈ propertiesOf group name l) : n.isNamed name = true ∧ ∃ g ∈ l, n ∈ g.children := by
  obtain ⟨g, hg, hn⟩ := List.mem_flatMap.1 h
  exact ⟨by simpa using (List.mem_filter.1 hn).2, g, (List.mem_filter.1 hg).1, (List.mem_filter.1 hn).1⟩

theorem everywhere_propertiesOf {P : Node → Prop} {n : Node} (hl : Everywhere P l) (h : n ∈ propertiesOf group name l) : P n := by
  obtain ⟨-, g, hg, hn⟩ := mem_propertiesOf h
  exact (everywhere_singleton.1 ((hl.children hg).of_mem hn)).1

end EquationExport.Omml
