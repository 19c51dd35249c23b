import EquationExport.Proofs.Omml.Base
import EquationExport.Proofs.Omml.Matching

/-!
# Bases that seem to stand between delimiters

The base of scripts is wrapped if its first and its last object are delimiters of one pair with an object between them.
Nothing says that the two belong together: in a base of two groups the first delimiter is closed within. They do belong
together exactly if the objects between them are balanced.
-/

namespace EquationExport.Omml

open Xml Xml.Node Repair

variable {node base : Node} {front rest objects : List Node} {opening closing : Text}

/-- The delimiter that matches the first of the objects is the last of them. -/
def ClosesLast (opening closing : Text) (objects : List Node) : Prop :=
  matchAt? opening closing 0 1 (objects.drop 1) = some (objects.length - 1)

instance (opening closing : Text) (objects : List Node) : Decidable (ClosesLast opening closing objects) :=
  inferInstanceAs (Decidable (matchAt? opening closing 0 1 (objects.drop 1) = some (objects.length - 1)))

theorem closesLast_iff (h : outerDelimiters? objects = some (opening, closing)) :
    ClosesLast opening closing objects ↔ Balanced opening closing (interior objects) := by
  obtain ⟨first, inner, last, rfl, -, -, hlast, -⟩ := exists_of_outerDelimiters? h
  have hlength : (first :: (inner ++ [last])).length - 1 = 1 + inner.length := by
    simp only [List.length_cons, List.length_append, List.length_nil]
    omega
  rw [ClosesLast, hlength, interior_cons_append]
  exact matchAt?_append_singleton hlast

/-! ### What becomes of a node -/

/-- What becomes of the objects of a base. -/
def wrapObjects (objects : List Node) : List Node :=
  match outerDelimiters? objects with
  | some (opening, closing) => [delimiter opening closing ((interior objects).map wrapBases)]
  | none => objects.map wrapBases

theorem wrapBases_of_no_base (h : node.isScript = false ∨ node.slot? "e" = none) :
    wrapBases node = node.withChildren (node.children.map wrapBases) := by
  cases node with
  | element tag text children tail =>
    rw [children_element, withChildren_element, ← wrapBasesAmong_eq_map]
    rcases h with hscript | hslot
    · exact wrapBases_element hscript
    · simp only [wrapBases, hslot, Option.bind_none]
      cases (element tag text children tail).isScript <;> rfl
  | comment | instruction => rfl

theorem wrapBases_base (hbase : base.isNamed "e" = true) :
    wrapBases base = base.withChildren (base.children.map wrapBases) :=
  wrapBases_of_no_base (.inl (isScript_of_isNamed hbase (by decide)))

/-- Scripts keep their children, but for the first base. -/
theorem wrapBases_script (hscript : node.isScript = true) (hchildren : node.children = front ++ base :: rest)
    (hbase : base.isNamed "e" = true) (hfront : ∀ n ∈ front, n.isNamed "e" = false) :
    wrapBases node =
      node.withChildren (front.map wrapBases ++ base.withChildren (wrapObjects base.children) :: rest.map wrapBases) := by
  cases node with
  | element tag text children tail =>
    obtain rfl : children = front ++ base :: rest := hchildren
    have hslot : (element tag text (front ++ base :: rest) tail).slot? "e" = some base :=
      List.find?_eq_some_iff_append.2 ⟨hbase, front, rest, rfl, by simpa using hfront⟩
    have hmap : wrapBasesAmong (front ++ base :: rest) =
        front.map wrapBases ++ base.withChildren (base.children.map wrapBases) :: rest.map wrapBases := by
      rw [wrapBasesAmong_eq_map, List.map_append, List.map_cons, wrapBases_base hbase]
    have hnone : ∀ m ∈ front.map wrapBases, m.isNamed "e" = false := by
      intro m hm
      obtain ⟨n, hn, rfl⟩ := List.mem_map.1 hm
      rw [isNamed, name?_wrapBases, ← isNamed]
      exact hfront n hn
    rw [withChildren_element]
    simp only [wrapBases, hscript, hslot, Option.bind_some, wrapObjects, hmap]
    cases houter : outerDelimiters? base.children with
    | none => rfl
    | some pair =>
      have hnamed : (base.withChildren (base.children.map wrapBases)).isNamed "e" = true := by
        rw [isNamed_withChildren, hbase]
      simp only [withChildren_element, children_element, modifyFirst_append _ _ _ hnone hnamed]
      cases base with
      | element => simp [Repair.interior, List.map_dropLast]
      | comment | instruction => cases hbase
  | comment | instruction => cases hscript

/-- What the repair does to every node: the base of scripts is wrapped if its ends are delimiters of a pair, and these
are partners exactly if what stands between them is balanced. -/
theorem wrapScriptBases_partners_iff (f : Fragment) :
    (wrapScriptBases f).children = f.children.map wrapBases ∧ ∀ node ∈ f.nodes,
      ((node.isScript = false ∨ node.slot? "e" = none) ∧ wrapBases node = node.withChildren (node.children.map wrapBases)) ∨
      ∃ front base rest, node.isScript = true ∧ node.slot? "e" = some base ∧ node.children = front ++ base :: rest ∧
        wrapBases node = node.withChildren
          (front.map wrapBases ++ base.withChildren (wrapObjects base.children) :: rest.map wrapBases) ∧
        ∀ opening closing, outerDelimiters? base.children = some (opening, closing) →
          (ClosesLast opening closing base.children ↔ Balanced opening closing (interior base.children)) := by
  refine ⟨wrapBasesAmong_eq_map f.children, fun node _ => ?_⟩
  by_cases hnone : node.isScript = false ∨ node.slot? "e" = none
  · exact .inl ⟨hnone, wrapBases_of_no_base hnone⟩
  · rw [not_or, Bool.not_eq_false] at hnone
    obtain ⟨hscript, hslot⟩ := hnone
    obtain ⟨base, hslot⟩ := Option.ne_none_iff_exists'.1 hslot
    obtain ⟨hbase, front, rest, hchildren, hfront⟩ := List.find?_eq_some_iff_append.1 hslot
    refine .inr ⟨front, base, rest, hscript, hslot, hchildren, ?_, fun opening closing => closesLast_iff⟩
    exact wrapBases_script hscript hchildren hbase (by simpa using hfront)

/-! ### Two groups -/

/-- The square of a product of two groups in parentheses. -/
def twoGroups : Node :=
  mathElement "sSup" [mathElement "e" ((Text.ofStrings ["(", "a", ")", "(", "b", ")"]).map plainRun), mathElement "sup" [plainRun "2"]]

/-- The first delimiter of two groups is taken for the partner of the last, and what comes between them is not balanced. -/
theorem wrapScriptBases_twoGroups :
    (wrapScriptBases ⟨none, [twoGroups]⟩).children =
        [mathElement "sSup" [mathElement "e" [delimiter "(" ")" ((Text.ofStrings ["a", ")", "(", "b"]).map plainRun)],
          mathElement "sup" [plainRun "2"]]] ∧
      Balanced "(" ")" ((Text.ofStrings ["(", "a", ")", "(", "b", ")"]).map plainRun) ∧
      ¬ ClosesLast "(" ")" ((Text.ofStrings ["(", "a", ")", "(", "b", ")"]).map plainRun) ∧
      ¬ Balanced "(" ")" ((Text.ofStrings ["a", ")", "(", "b"]).map plainRun) :=
  ⟨rfl, by decide, by decide, by decide⟩

end EquationExport.Omml
