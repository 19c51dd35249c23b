import EquationExport.Omml.Element

/-!
# Delimiters that match

Among neighbours, delimiters of one pair are counted from left to right: an opening one raises the level, a closing one
lowers it. The delimiter that matches an opening one is the first behind it that closes more than was opened since.
Where the two delimiters of a pair are the same, as bars are, the next one closes.
-/

namespace EquationExport.Omml

open Xml Xml.Node

variable {opening closing : Text} {node last : Node} {a b l inner rest : List Node} {d i j : Nat}

/-! ### Levels -/

/-- How many delimiters are open behind the objects if `d` are open before; none if one closes that was never opened. -/
def levelAfter? (opening closing : Text) (d : Nat) : List Node → Option Nat
  | [] => some d
  | node :: rest =>
    if node.glyphs = closing then
      (match d with
      | 0 => none
      | d + 1 => levelAfter? opening closing d rest)
    else if node.glyphs = opening then levelAfter? opening closing (d + 1) rest
    else levelAfter? opening closing d rest

/-- Each delimiter of the pair has its partner among the objects. -/
def Balanced (opening closing : Text) (l : List Node) : Prop := levelAfter? opening closing 0 l = some 0

instance (opening closing : Text) (l : List Node) : Decidable (Balanced opening closing l) :=
  inferInstanceAs (Decidable (levelAfter? opening closing 0 l = some 0))

/-- The place of the first delimiter that closes more than was opened, `d` being open before; `i` objects stand before. -/
def matchAt? (opening closing : Text) (d i : Nat) : List Node → Option Nat
  | [] => none
  | node :: rest =>
    if node.glyphs = closing then
      (match d with
      | 0 => some i
      | d + 1 => matchAt? opening closing d (i + 1) rest)
    else if node.glyphs = opening then matchAt? opening closing (d + 1) (i + 1) rest
    else matchAt? opening closing d (i + 1) rest

theorem levelAfter?_append (opening closing : Text) (d : Nat) (a b : List Node) :
    levelAfter? opening closing d (a ++ b) =
      (levelAfter? opening closing d a).bind fun d => levelAfter? opening closing d b := by
  induction a generalizing d with
  | nil => rfl
  | cons node a ih =>
    simp only [List.cons_append, levelAfter?]
    split
    · cases d with
      | zero => rfl
      | succ d => exact ih d
    · split
      · exact ih (d + 1)
      · exact ih d

/-- Delimiters that are open before do not matter to those that are not closed. -/
theorem levelAfter?_add (h : levelAfter? opening closing d l = some j) (n : Nat) :
    levelAfter? opening closing (d + n) l = some (j + n) := by
  induction l generalizing d with
  | nil =>
    obtain rfl : d = j := by simpa [levelAfter?] using h
    rfl
  | cons node l ih =>
    simp only [levelAfter?] at h ⊢
    split at h
    · next hclosing =>
      cases d with
      | zero => cases h
      | succ d =>
        rw [if_pos hclosing, Nat.succ_add_eq_add_succ]
        exact ih h
    · next hclosing =>
      rw [if_neg hclosing]
      split at h
      · next hopening =>
        rw [if_pos hopening, Nat.add_right_comm]
        exact ih h
      · next hopening =>
        rw [if_neg hopening]
        exact ih h

namespace Balanced

/-- Balanced objects leave open what was open before. -/
theorem levelAfter? (h : Balanced opening closing l) (d : Nat) : levelAfter? opening closing d l = some d := by
  simpa using levelAfter?_add h d

/-- Balanced objects can stand in the place of others. -/
theorem levelAfter?_congr (ha : Balanced opening closing a) (hb : Balanced opening closing b) (front rest : List Node) (d : Nat) :
    Omml.levelAfter? opening closing d (front ++ (a ++ rest)) = Omml.levelAfter? opening closing d (front ++ (b ++ rest)) := by
  simp only [levelAfter?_append, ha.levelAfter?, hb.levelAfter?, Option.bind_some]

theorem singleton (hopening : node.glyphs ≠ opening) (hclosing : node.glyphs ≠ closing) : Balanced opening closing [node] := by
  rw [Balanced, Omml.levelAfter?, if_neg hclosing, if_neg hopening]
  rfl

/-- Balanced objects between two delimiters that differ. -/
theorem enclose (h : Balanced opening closing inner) (hne : opening ≠ closing) (hnode : node.glyphs = opening)
    (hlast : last.glyphs = closing) : Balanced opening closing (node :: (inner ++ [last])) := by
  rw [Balanced, Omml.levelAfter?, if_neg (by rw [hnode]; exact hne), if_pos hnode, levelAfter?_append, h.levelAfter?,
    Option.bind_some]
  simp only [Omml.levelAfter?, if_pos hlast]

end Balanced

/-- What stands before an object of a list is nothing, or it begins with the first object. -/
theorem exists_append_cons_iff {P : List Node → Node → Prop} :
    (∃ inner last rest, node :: l = inner ++ last :: rest ∧ P inner last) ↔
      P [] node ∨ ∃ inner last rest, l = inner ++ last :: rest ∧ P (node :: inner) last := by
  constructor
  · rintro ⟨inner, last, rest, heq, h⟩
    cases inner with
    | nil =>
      obtain ⟨rfl, rfl⟩ := List.cons.inj heq
      exact .inl h
    | cons n inner =>
      obtain ⟨rfl, rfl⟩ := List.cons.inj heq
      exact .inr ⟨inner, last, rest, rfl, h⟩
  · rintro (h | ⟨inner, last, rest, rfl, h⟩)
    · exact ⟨[], node, l, rfl, h⟩
    · exact ⟨node :: inner, last, rest, rfl, h⟩

/-- The place of the match is that of a closing delimiter, and what stands before it closes what it opens. -/
theorem matchAt?_eq_some_iff :
    matchAt? opening closing d i l = some j ↔
      ∃ inner last rest, l = inner ++ last :: rest ∧ last.glyphs = closing ∧
        levelAfter? opening closing d inner = some 0 ∧ j = i + inner.length := by
  induction l generalizing d i with
  | nil => simp [matchAt?]
  | cons node l ih =>
    rw [exists_append_cons_iff]
    simp only [matchAt?, levelAfter?, List.length_cons, List.length_nil]
    split
    · next hclosing =>
      cases d with
      | zero =>
        simp only [Option.some.injEq, hclosing, true_and, reduceCtorEq, false_and, and_false, exists_const, or_false]
        exact eq_comm
      | succ d =>
        simp only [hclosing, ih, Nat.add_assoc, Nat.add_comm 1, Option.some.injEq, Nat.succ_ne_zero, false_and, and_false,
          false_or]
    · next hclosing =>
      split
      · simp only [hclosing, ih, Nat.add_assoc, Nat.add_comm 1, false_and, false_or]
      · simp only [hclosing, ih, Nat.add_assoc, Nat.add_comm 1, false_and, false_or]

/-- The last of some objects is the match of what stands before them exactly if the others are balanced. -/
theorem matchAt?_append_singleton (hlast : last.glyphs = closing) :
    matchAt? opening closing 0 i (inner ++ [last]) = some (i + inner.length) ↔ Balanced opening closing inner := by
  rw [matchAt?_eq_some_iff]
  constructor
  · rintro ⟨inner', last', rest, heq, -, hlevel, hlength⟩
    obtain ⟨rfl, -⟩ := List.append_inj heq (by omega)
    exact hlevel
  · intro hbalanced
    exact ⟨inner, last, [], rfl, hlast, hbalanced, rfl⟩

end EquationExport.Omml
