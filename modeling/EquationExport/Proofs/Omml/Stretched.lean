import EquationExport.Proofs.Omml.Fraction
import EquationExport.Proofs.Omml.Hoisting

/-!
# Trees that differ in delimiters

Two trees may differ in that pairs of runs around some objects are delimiter constructs in one of them. As long as
no object between the runs is a slot, and none becomes one where scripts are taken apart, the repairs after this do the
same to both trees: they find the same slots. So they leave a fraction of the plain tree only where they leave one of
the tree with delimiters.
-/

namespace EquationExport.Omml

open Xml Xml.Node Repair

variable {K : List Node → List Node → Prop} {a b c d l l' : List Node} {node : Node} {name : Text}

/-! ### The relation -/

/-- No slot is among the objects, and no script among them or in them leaves a slot behind. -/
def HoldsNoSlot (l : List Node) : Prop := Everywhere (GivesNone slotNames) l ∧ Lacks slotNames l

/-- The new nodes are the old ones, but that delimiters stand in the place of some pairs of runs without fractions. -/
inductive Stretched : List Node → List Node → Prop
  | nil : Stretched [] []
  | keep (node : Node) {rest rest' : List Node} (hrest : Stretched rest rest') : Stretched (node :: rest) (node :: rest')
  | inside {tag : Tag} {text : Option Text} {l l' : List Node} {tail : Text} {rest rest' : List Node}
      (hl : Stretched l l') (hrest : Stretched rest rest') :
      Stretched (element tag text l tail :: rest) (element tag text l' tail :: rest')
  | enclose (opening closing : Text) {first last : Node} {inner inner' rest rest' : List Node}
      (hfirst : first.isRun = true) (hlast : last.isRun = true) (hnone : Unfractioned [first, last])
      (hplain : HoldsNoSlot inner) (hinner : Stretched inner inner') (hrest : Stretched rest rest') :
      Stretched (first :: (inner ++ last :: rest)) (delimiter opening closing inner' :: rest')

namespace Stretched

theorem refl (l : List Node) : Stretched l l := by
  induction l with
  | nil => exact .nil
  | cons node l ih => exact .keep node ih

theorem append (h : Stretched a b) (h' : Stretched c d) : Stretched (a ++ c) (b ++ d) := by
  induction h with
  | nil => exact h'
  | keep node _ ih => exact .keep node ih
  | inside hl _ _ ih => exact .inside hl ih
  | enclose opening closing hfirst hlast hnone hplain hinner _ _ ih =>
    rw [List.cons_append, List.append_assoc, List.cons_append]
    exact .enclose opening closing hfirst hlast hnone hplain hinner ih

end Stretched

/-- What holds of each single enclosing holds of several. -/
theorem Congruence.of_stretched (hK : Congruence K) (henclose : ∀ opening closing first inner last, first.isRun = true →
    last.isRun = true → K (first :: (inner ++ [last])) [delimiter opening closing inner]) (h : Stretched a b) : K a b := by
  induction h with
  | nil => exact hK.refl []
  | keep node _ ih => exact hK.cons (hK.refl _) ih
  | inside _ _ ihl ih => exact hK.cons (hK.inside ihl) ih
  | @enclose opening closing first last inner inner' rest rest' hfirst hlast _ _ _ _ ihinner ih =>
    have hbetween : K (first :: (inner ++ [last])) (first :: (inner' ++ [last])) :=
      hK.cons (hK.refl _) (hK.append ihinner (hK.refl _))
    have hall := hK.append (hK.trans hbetween (henclose opening closing first inner' last hfirst hlast)) ih
    rwa [List.cons_append, List.append_assoc, List.singleton_append] at hall

/-! ### Scripts that are taken apart -/

theorem Lacks.find? (h : Lacks slotNames l) (hname : name ∈ slotNames) : l.find? (·.isNamed name) = none :=
  List.find?_eq_none.2 fun n hn => by simp [h.isNamed hname hn]

theorem not_isNamed_of_isRun (hname : name ∈ slotNames) (hrun : node.isRun = true) : node.isNamed name = false := by
  have hall : ∀ name ∈ slotNames, ((("r" : Text) == name) = false) := by decide
  exact isNamed_of_isNamed hrun (hall name hname)

/-- The same slots are found, with contents that are related. -/
theorem Stretched.find? (h : Stretched a b) (hname : name ∈ slotNames) :
    (a.find? (·.isNamed name) = none ∧ b.find? (·.isNamed name) = none) ∨
      ∃ slot slot', a.find? (·.isNamed name) = some slot ∧ b.find? (·.isNamed name) = some slot' ∧
        Stretched slot.children slot'.children := by
  induction h with
  | nil => exact .inl ⟨rfl, rfl⟩
  | keep node _ ih =>
    rw [List.find?_cons, List.find?_cons]
    split
    · exact .inr ⟨node, node, rfl, rfl, refl _⟩
    · exact ih
  | @inside tag text l l' tail _ _ hl _ _ ih =>
    have hsame : (element tag text l' tail).isNamed name = (element tag text l tail).isNamed name := rfl
    rw [List.find?_cons, List.find?_cons, hsame]
    split
    · exact .inr ⟨_, _, rfl, rfl, hl⟩
    · exact ih
  | @enclose opening closing first last inner inner' rest rest' hfirst hlast _ hplain _ _ _ ih =>
    have hall : ∀ name ∈ slotNames, ((("d" : Text) == name) = false) := by decide
    have hdelimiter : (delimiter opening closing inner').isNamed name = false :=
      isNamed_of_isNamed (show _ = true from isNamed_mathElement "d" "d" _) (hall name hname)
    rw [List.find?_cons, not_isNamed_of_isRun hname hfirst, List.find?_append, hplain.2.find? hname, Option.none_or,
      List.find?_cons, not_isNamed_of_isRun hname hlast, List.find?_cons, hdelimiter]
    exact ih

/-- The root is taken apart in both trees or in neither. -/
theorem Stretched.dissolveInvalid {tag : Tag} {text : Option Text} {tail : Text} (h : Stretched l l') :
    Stretched (dissolveInvalid (element tag text l tail)) (dissolveInvalid (element tag text l' tail)) := by
  have hslot : ∀ name ∈ slotNames,
      ((element tag text l' tail).slot? name).isSome = ((element tag text l tail).slot? name).isSome := by
    intro name hname
    rcases h.find? hname with ⟨hnone, hnone'⟩ | ⟨slot, slot', hsome, hsome', -⟩
    · rw [slot?, slot?, children_element, children_element, hnone, hnone']
    · rw [slot?, slot?, children_element, children_element, hsome, hsome']
      rfl
  have hrequired : ((requiredSlots (element tag text l' tail)).all fun name => ((element tag text l' tail).slot? name).isSome) =
      (requiredSlots (element tag text l tail)).all fun name => ((element tag text l tail).slot? name).isSome := by
    rw [Bool.eq_iff_iff, List.all_eq_true, List.all_eq_true]
    refine forall₂_congr fun name hname => ?_
    rw [hslot name (scriptSlots_subset _ _ (List.mem_cons_of_mem _ hname))]
  have hscript : (element tag text l' tail).isScript = (element tag text l tail).isScript := rfl
  rw [Repair.dissolveInvalid, Repair.dissolveInvalid, hscript, hrequired]
  split
  · rcases h.find? (show ("e" : Text) ∈ slotNames by decide) with ⟨hnone, hnone'⟩ | ⟨base, base', hsome, hsome', hbases⟩
    · rw [slot?, slot?, children_element, children_element, hnone, hnone']
      exact .nil
    · rw [slot?, slot?, children_element, children_element, hsome, hsome']
      dsimp only
      split
      · exact .inside h .nil
      · exact hbases
  · exact .inside h .nil

/-- A run stays where it is. -/
theorem exists_rebuild_of_isRun (hrun : node.isRun = true) :
    ∃ new, node.rebuild Repair.dissolveInvalid = [new] ∧ new.isRun = true := by
  cases node with
  | element tag text children tail =>
    refine ⟨element tag text (rebuildAll Repair.dissolveInvalid children) tail, ?_, hrun⟩
    have hscript : (element tag text (rebuildAll Repair.dissolveInvalid children) tail).isScript = false :=
      isScript_of_isNamed (show isNamed _ "r" = true from hrun) (by decide)
    rw [Node.rebuild, Repair.dissolveInvalid, hscript]
    rfl
  | comment | instruction => cases hrun

/-- What stands between delimiters stays there. -/
theorem rebuild_delimiter (opening closing : Text) (l : List Node) :
    (delimiter opening closing l).rebuild Repair.dissolveInvalid =
      [delimiter opening closing (rebuildAll Repair.dissolveInvalid l)] := by
  have hkeep : ∀ name ∈ delimiterNames, ∀ l, (mathElement name l).rebuild Repair.dissolveInvalid =
      [mathElement name (rebuildAll Repair.dissolveInvalid l)] := by
    intro name hname l
    have hall : ∀ name ∈ delimiterNames, name ∉ scriptNames := by decide
    have hscript : (mathElement name (rebuildAll Repair.dissolveInvalid l)).isScript = false :=
      isScript_of_isNamed (isNamed_mathElement_self ..) (hall name hname)
    rw [mathElement, Node.rebuild, Repair.dissolveInvalid, ← mathElement, hscript]
    rfl
  have hproperties := hkeep "dPr" (by decide) [valueElement "begChr" opening, valueElement "endChr" closing]
  have hslot : rebuildAll Repair.dissolveInvalid [mathElement "e" l] = [mathElement "e" (rebuildAll Repair.dissolveInvalid l)] := by
    rw [rebuildAll, hkeep "e" (by decide)]
    rfl
  rw [delimiter_eq, delimiter_eq, hkeep "d" (by decide), rebuildAll, hproperties, hslot]
  rfl

theorem unfractioned_dissolve (h : Unfractioned l) : Unfractioned (rebuildAll Repair.dissolveInvalid l) :=
  lasting_unfractioned.isLocal.rebuildAll Lasting.dissolveInvalid l h

theorem HoldsNoSlot.dissolve (h : HoldsNoSlot l) : HoldsNoSlot (rebuildAll Repair.dissolveInvalid l) := by
  have hsteps := steps_givesOn (show ("e" : Text) ∈ slotNames by decide) (show ∀ name ∈ objectNames, name ∉ slotNames by decide)
  have hgives := hsteps.toCongruence.rebuildAll hsteps.dissolveInvalid l h.1
  exact ⟨hgives.givesNone, hgives.lacks h.2⟩

/-- Scripts are taken apart in both trees alike. -/
theorem Stretched.dissolve (h : Stretched a b) :
    Stretched (rebuildAll Repair.dissolveInvalid a) (rebuildAll Repair.dissolveInvalid b) := by
  induction h with
  | nil => exact .nil
  | keep node _ ih => exact (refl (node.rebuild Repair.dissolveInvalid)).append ih
  | inside _ _ ihl ih => exact ihl.dissolveInvalid.append ih
  | @enclose opening closing first last inner inner' rest rest' hfirst hlast hnone hplain _ _ ihinner ih =>
    obtain ⟨first', heqfirst, hfirst'⟩ := exists_rebuild_of_isRun hfirst
    obtain ⟨last', heqlast, hlast'⟩ := exists_rebuild_of_isRun hlast
    have hnone' : Unfractioned [first', last'] := by
      have hdissolved := unfractioned_dissolve hnone
      rwa [rebuildAll, heqfirst, rebuildAll, heqlast] at hdissolved
    rw [rebuildAll, heqfirst, rebuildAll_append, rebuildAll, heqlast, rebuildAll, rebuild_delimiter]
    exact .enclose opening closing hfirst' hlast' hnone' hplain.dissolve ihinner ih

/-! ### Nodes that are left out -/

theorem pruneAll_cons (keep : Option Tag → Node → Bool) (parent : Option Tag) (n : Node) (l : List Node) :
    Xml.pruneAll keep parent (n :: l) = Xml.pruneAll keep parent [n] ++ Xml.pruneAll keep parent l :=
  pruneAll_append keep parent [n] l

section Prune

variable {parent parent' : Option Tag} (hparent : parent'.any isPropertyGroup = true → parent.any isPropertyGroup = true)
include hparent

theorem keepsDefined_mono (h : keepsDefined parent node = true) : keepsDefined parent' node = true := by
  simp only [keepsDefined, Bool.not_eq_true', Bool.and_eq_false_iff] at h ⊢
  exact h.imp_left fun hgroup => Bool.eq_false_iff.2 fun h => Bool.eq_false_iff.1 hgroup (hparent h)

/-- Below a parent where more is left out, no fraction is left either. -/
theorem unfractioned_pruneAll_mono (l : List Node) (h : Unfractioned (pruneAll keepsDefined parent' l)) :
    Unfractioned (pruneAll keepsDefined parent l) := by
  induction l with
  | nil => exact everywhere_nil
  | cons node l ih =>
    rw [Xml.pruneAll] at h ⊢
    split
    · next hkeep =>
      rw [if_pos (keepsDefined_mono hparent hkeep)] at h
      exact everywhere_cons.2 ((everywhere_cons.1 h).imp_right ih)
    · split at h
      · exact ih (everywhere_cons.1 h).2
      · exact ih h

end Prune

/-- An element without attributes is not left out. -/
theorem unfractioned_of_mathElement {parent : Option Tag}
    (h : Unfractioned (pruneAll keepsDefined parent [mathElement name l])) :
    Unfractioned (pruneAll keepsDefined (some ⟨mathName name, [], []⟩) l) := by
  have hkeep : keepsDefined parent (mathElement name l) = true := by
    rw [keepsDefined, show isUndefined (mathElement name l) = false from rfl, Bool.and_false]
    rfl
  rw [Xml.pruneAll, if_pos hkeep] at h
  exact (everywhere_singleton.1 (everywhere_cons.1 h).1).2

/-- What is left of the plain tree holds no fraction if what is left of the other one holds none. -/
theorem Stretched.unfractioned_prune (h : Stretched a b) :
    ∀ {parent parent' : Option Tag}, (parent'.any isPropertyGroup = true → parent.any isPropertyGroup = true) →
      Unfractioned (pruneAll keepsDefined parent' b) → Unfractioned (pruneAll keepsDefined parent a) := by
  induction h with
  | nil => exact fun _ _ => everywhere_nil
  | keep node _ ih =>
    intro parent parent' hparent hnone
    rw [pruneAll_cons] at hnone ⊢
    obtain ⟨hnode, hrest⟩ := everywhere_append.1 hnone
    exact everywhere_append.2 ⟨unfractioned_pruneAll_mono hparent [node] hnode, ih hparent hrest⟩
  | @inside tag text l l' tail _ _ _ _ ihl ih =>
    intro parent parent' hparent hnone
    rw [pruneAll_cons] at hnone ⊢
    obtain ⟨hnode, hrest⟩ := everywhere_append.1 hnone
    refine everywhere_append.2 ⟨?_, ih hparent hrest⟩
    have hlax := unfractioned_pruneAll_mono hparent _ hnode
    have hsame : keepsDefined parent (element tag text l' tail) = keepsDefined parent (element tag text l tail) := rfl
    rw [Xml.pruneAll, hsame] at hlax
    rw [Xml.pruneAll]
    split
    · next hkeep =>
      rw [if_pos hkeep] at hlax
      obtain ⟨hroot, hbelow⟩ := everywhere_singleton.1 hlax
      exact everywhere_singleton.2 ⟨hroot, ihl id hbelow⟩
    · exact everywhere_nil
  | @enclose opening closing first last inner inner' rest rest' _ _ hruns _ _ _ ihinner ih =>
    intro parent parent' hparent hnone
    obtain ⟨hfirst, hlast⟩ := everywhere_cons.1 hruns
    have hleft : ∀ {n : Node}, Unfractioned [n] → Unfractioned (pruneAll keepsDefined parent [n]) :=
      fun h => lasting_unfractioned.isLocal.pruneAll _ _ _ h
    rw [pruneAll_cons] at hnone
    obtain ⟨hdelimiter, hrest⟩ := everywhere_append.1 hnone
    rw [delimiter_eq] at hdelimiter
    have hslots := unfractioned_of_mathElement hdelimiter
    rw [pruneAll_cons] at hslots
    have hinner := unfractioned_of_mathElement (everywhere_append.1 hslots).2
    rw [pruneAll_cons, pruneAll_append, pruneAll_cons _ _ last]
    refine everywhere_append.2 ⟨hleft hfirst, everywhere_append.2 ⟨ihinner (fun hgroup => ?_) hinner, ?_⟩⟩
    · exact absurd hgroup (by decide)
    · exact everywhere_append.2 ⟨hleft hlast, ih hparent hrest⟩

end EquationExport.Omml
