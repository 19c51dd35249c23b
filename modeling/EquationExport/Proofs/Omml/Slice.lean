import EquationExport.Omml.Edit
import EquationExport.Omml.Repair.Script
import EquationExport.Omml.Repair.Sweep
import EquationExport.Proofs.Omml.TopFraction
import EquationExport.Proofs.Xml.LiveForest
import Mathlib.Data.List.Nodup

/-!
# Replacing a span is assigning a slice

Children are taken out one at a time, and put in one at a time, each before the child that stands at its position then. For a
list this assigns a slice. In a live tree each insertion also takes the node from where it stood; as long as no new node is one
of the children that stay, none of these changes places, and the children are those of the list. What the new nodes read as is
up to where they come from: new runs and the children of a slot read as before.
-/

namespace EquationExport

open Xml

namespace Omml

variable {α β : Type} {x : α} {new l : List α} {index start stop : Int}

/-- The elements that do not stand from `start` up to `stop`. -/
def outside (start stop : Int) (l : List α) : List α :=
  let a := position l.length start
  l.take a ++ l.drop (max a (position l.length stop))

/-- The list with the elements from `start` up to `stop` replaced; if there are none, with the new ones put in at `start`. -/
def assignSlice (start stop : Int) (new l : List α) : List α :=
  let a := position l.length start
  l.take a ++ new ++ l.drop (max a (position l.length stop))

theorem insertChild_natCast (n : Nat) (x : α) (l : List α) : insertChild n x l = l.take n ++ x :: l.drop n := by
  rw [insertChild]
  split
  · rfl
  · next h =>
    have hle : l.length ≤ n := by omega
    rw [if_neg (by omega), List.take_of_length_le hle, List.drop_of_length_le hle]

/-- What is put in where a span was taken out stands between what was before and behind it. -/
theorem insertChild_take_append_drop {start stop : Nat} (hlt : start < stop) (hle : stop ≤ l.length) (x : α) :
    insertChild start x (l.take start ++ l.drop stop) = l.take start ++ x :: l.drop stop := by
  have hlength : (l.take start).length = start := List.length_take_of_le (by omega)
  rw [insertChild_natCast, List.take_left' hlength, List.drop_left' hlength]

theorem insertChildren_natCast (n : Nat) (new l : List α) : insertChildren n new l = l.take n ++ new ++ l.drop n := by
  induction new generalizing n l with
  | nil => simp [insertChildren]
  | cons x new ih =>
    have hcast : (n : Int) + 1 = ((n + 1 : Nat) : Int) := rfl
    rw [insertChildren, hcast, ih, insertChild_natCast]
    rcases Nat.le_total n l.length with hle | hle
    · have hlength : (l.take n).length = n := List.length_take_of_le hle
      rw [List.take_append, List.drop_append, hlength]
      simp [List.take_take, Nat.sub_eq_zero_of_le, List.drop_take]
    · rw [List.take_of_length_le hle, List.drop_of_length_le hle, List.take_of_length_le (by simp; omega),
        List.drop_of_length_le (by simp; omega)]
      simp

theorem position_natCast (length n : Nat) : position length n = min length n := by
  simp [position, Int.not_lt.2 (Int.natCast_nonneg n)]

theorem outside_natCast {start stop : Nat} (hlt : start < stop) (hle : stop ≤ l.length) :
    outside start stop l = l.take start ++ l.drop stop := by
  rw [outside, position_natCast, position_natCast, Nat.min_eq_right hle, Nat.min_eq_right (by omega),
    Nat.max_eq_right (by omega)]

/-- Taking a span out leaves what stands outside it. -/
theorem replaceSpan_eq (start stop : Int) (new l : List α) :
    replaceSpan start stop new l = insertChildren start new (outside start stop l) := by
  rw [replaceSpan, outside]
  split
  · next h => rw [Nat.max_eq_right (Nat.le_of_lt h)]
  · next h => rw [Nat.max_eq_left (Nat.not_lt.1 h), List.take_append_drop]

/-- Taking a span out and putting others in one after the other assigns the slice. -/
theorem replaceSpan_natCast (start : Nat) (stop : Int) (new l : List α) :
    replaceSpan start stop new l = assignSlice start stop new l := by
  have hb : position l.length stop ≤ l.length := Nat.min_le_left ..
  rw [replaceSpan_eq, outside, assignSlice, insertChildren_natCast, position_natCast]
  generalize position l.length stop = b at hb ⊢
  rcases Nat.le_total start l.length with hle | hle
  · have hlength : (l.take start).length = start := List.length_take_of_le hle
    rw [Nat.min_eq_right hle, List.take_left' hlength, List.drop_left' hlength]
  · rw [Nat.min_eq_left hle, Nat.max_eq_left hb, List.take_length, List.drop_length, List.append_nil,
      List.take_of_length_le hle, List.drop_of_length_le hle, List.append_nil]

example : replaceSpan 1 (-1) [8, 9] [1, 2, 3, 4] = [1, 8, 9, 4] := by decide

example : replaceSpan 3 1 [8, 9] [1, 2, 3, 4] = [1, 2, 3, 8, 9, 4] := by decide

theorem map_insertChild (φ : α → β) (index : Int) (x : α) (l : List α) :
    (insertChild index x l).map φ = insertChild index (φ x) (l.map φ) := by
  simp only [insertChild, List.length_map]
  split
  · simp
  · split <;> simp

theorem map_insertChildren (φ : α → β) (index : Int) (new l : List α) :
    (insertChildren index new l).map φ = insertChildren index (new.map φ) (l.map φ) := by
  induction new generalizing index l with
  | nil => rfl
  | cons x new ih => rw [insertChildren, ih, map_insertChild, List.map_cons, insertChildren]

/-- What stands at the places does not matter. -/
theorem map_replaceSpan (φ : α → β) (start stop : Int) (new l : List α) :
    (replaceSpan start stop new l).map φ = replaceSpan start stop (new.map φ) (l.map φ) := by
  rw [replaceSpan, map_insertChildren, replaceSpan, List.length_map, apply_ite (List.map φ), List.map_append, List.map_take,
    List.map_drop]

/-- A child is inserted before the one at the position, or behind all if there is none. -/
theorem insertChild_cases (index : Int) (x : α) (l : List α) :
    (itemAt? index l = none ∧ insertChild index x l = l ++ [x]) ∨
    ∃ front a behind, itemAt? index l = some a ∧ l = front ++ a :: behind ∧
      insertChild index x l = front ++ x :: a :: behind := by
  have hat : ∀ n (h : n < l.length), l = l.take n ++ l[n] :: l.drop (n + 1) ∧
      l.take n ++ x :: l.drop n = l.take n ++ x :: l[n] :: l.drop (n + 1) := fun n h => by
    rw [List.getElem_cons_drop, List.take_append_drop]
    exact ⟨rfl, rfl⟩
  by_cases hneg : 0 ≤ index
  · have hback : ¬ (index < 0 ∧ 0 ≤ l.length + index) := by omega
    rw [itemAt?, insertChild, if_pos hneg, if_neg hback]
    by_cases hlt : index < l.length
    · have hn : index.toNat < l.length := by omega
      rw [if_pos ⟨hneg, hlt⟩]
      exact .inr ⟨_, _, _, List.getElem?_eq_getElem hn, hat _ hn⟩
    · rw [if_neg fun h => hlt h.2]
      exact .inl ⟨List.getElem?_eq_none (by omega), rfl⟩
  · have hforth : ¬ (0 ≤ index ∧ index < l.length) := fun h => hneg h.1
    rw [itemAt?, insertChild, if_neg hneg, if_neg hforth]
    by_cases hin : 0 ≤ l.length + index
    · have hn : (l.length + index).toNat < l.length := by omega
      rw [if_pos hin, if_pos ⟨by omega, hin⟩]
      exact .inr ⟨_, _, _, List.getElem?_eq_getElem hn, hat _ hn⟩
    · rw [if_neg hin, if_neg fun h => hin h.2]
      exact .inl ⟨rfl, rfl⟩

theorem mem_insertChild {y : α} : y ∈ insertChild index x l ↔ y = x ∨ y ∈ l := by
  rcases insertChild_cases index x l with ⟨-, h⟩ | ⟨front, a, behind, -, hl, h⟩
  · rw [h, List.mem_append, List.mem_singleton, or_comm]
  · rw [h, hl]
    simp only [List.mem_append, List.mem_cons]
    exact or_left_comm

theorem mem_insertChildren {y : α} : y ∈ insertChildren index new l ↔ y ∈ new ∨ y ∈ l := by
  induction new generalizing index l with
  | nil => simp [insertChildren]
  | cons x new ih => rw [insertChildren, ih, mem_insertChild, List.mem_cons, or_left_comm, or_assoc]

theorem mem_replaceSpan {y : α} :
    y ∈ replaceSpan start stop new l ↔ y ∈ new ∨ y ∈ outside start stop l := by
  rw [replaceSpan_eq, mem_insertChildren]

theorem mem_of_mem_slice {y : α} (hy : y ∈ slice start stop l) : y ∈ l :=
  List.mem_of_mem_take (List.mem_of_mem_drop hy)

theorem mem_of_mem_outside {y : α} (hy : y ∈ outside start stop l) : y ∈ l := by
  rcases List.mem_append.1 hy with hy | hy
  · exact List.mem_of_mem_take hy
  · exact List.mem_of_mem_drop hy

/-- What stands before a slice, the slice, and what stands behind it. -/
theorem take_append_slice_append_drop (start stop : Int) (l : List α) :
    l.take (position l.length start) ++ (slice start stop l ++
      l.drop (max (position l.length start) (position l.length stop))) = l := by
  rw [slice]
  rcases Nat.le_total (position l.length start) (position l.length stop) with hle | hle
  · have hfront : l.take (position l.length start) =
        (l.take (position l.length stop)).take (position l.length start) := by
      rw [List.take_take, Nat.min_eq_left hle]
    rw [Nat.max_eq_right hle, ← List.append_assoc, hfront, List.take_append_drop, List.take_append_drop]
  · rw [Nat.max_eq_left hle, List.drop_of_length_le (by rw [List.length_take]; omega), List.nil_append, List.take_append_drop]

end Omml

/-! ### One step after the other -/

namespace Xml.LiveForest

open Omml

variable {f g h : LiveForest} {p x c : Identity} {span new : List Identity} {index start stop : Int}

theorem removeAll_cons_eq_ok_iff :
    removeAll p (x :: span) f = .ok g ↔ x ∈ f.children p ∧ removeAll p span (f.detach x) = .ok g := by
  rw [removeAll, remove]
  split
  · next hmem => exact (and_iff_right hmem).symm
  · next hmem => exact iff_of_false nofun fun h => hmem h.1

theorem insertAll_cons_eq_ok_iff :
    insertAll p index (x :: new) f = .ok g ↔ ∃ h, f.insert p index x = .ok h ∧ insertAll p (index + 1) new h = .ok g := by
  rw [insertAll]
  cases f.insert p index x with
  | error refusal => exact iff_of_false nofun fun ⟨h, hh, _⟩ => nomatch hh
  | ok h => exact ⟨fun hg => ⟨h, rfl, hg⟩, fun ⟨h', hh, hg⟩ => by cases hh; exact hg⟩

/-- A node that was no child is inserted as an element of the list of children. -/
theorem children_insert_eq (hg : f.insert p index x = .ok g) (hx : x ∉ f.children p) :
    g.children p = insertChild index x (f.children p) := by
  obtain ⟨hnone, hsome⟩ := children_insert hg hx
  rcases insertChild_cases index x (f.children p) with ⟨hat, heq⟩ | ⟨front, a, behind, hat, hsplit, heq⟩
  · rw [heq, hnone hat]
  · rw [heq, hsome front a behind hat hsplit]

/-- Neighbours are taken out one after the other; what stands before and behind them stays. -/
theorem exists_removeAll {front span behind : List Identity} (hsplit : f.children p = front ++ (span ++ behind)) :
    ∃ g, removeAll p span f = .ok g ∧ g.children p = front ++ behind ∧ Keeps p f g := by
  induction span generalizing f with
  | nil => exact ⟨f, rfl, hsplit, .refl p f⟩
  | cons x span ih =>
    have hmem : x ∈ f.children p := by simp [hsplit]
    obtain ⟨hremove, hchildren, hkeeps⟩ := remove_spec hmem
    have hnodup := f.nodup_children p
    rw [hsplit] at hnodup
    have hrest : (f.detach x).children p = front ++ (span ++ behind) := by
      have hfront : x ∉ front := fun hin => (List.nodup_append.1 hnodup).2.2 x hin x (by simp) rfl
      rw [hchildren, hsplit, List.erase_append_right _ hfront, List.cons_append, List.erase_cons_head]
    obtain ⟨g, hg, hleft, hkeeps'⟩ := ih hrest
    exact ⟨g, by rw [removeAll, hremove]; exact hg, hleft, hkeeps.trans hkeeps'⟩

/-- What nodes have to be so that they can be put among the children of an element one after the other. -/
structure Insertable (f : LiveForest) (p : Identity) (new : List Identity) : Prop where
  isElement : f.IsElement p
  mem : ∀ x ∈ new, x ∈ f.identities
  /-- None of them is the element or holds it. -/
  apart : ∀ x ∈ new, x ∉ f.line p
  fresh : ∀ x ∈ new, x ∉ f.children p
  nodup : new.Nodup

theorem Insertable.step (hnew : Insertable f p (x :: new)) (index : Int) :
    ∃ g, f.insert p index x = .ok g ∧ g.children p = insertChild index x (f.children p) ∧ Keeps p f g ∧ Insertable g p new := by
  have hfresh := hnew.fresh x (by simp)
  obtain ⟨g, hg⟩ := exists_insert hnew.isElement (hnew.mem x (by simp)) (hnew.apart x (by simp)) index
  have hkeeps := Keeps.of_insert hg
  have hchildren := children_insert_eq hg hfresh
  refine ⟨g, hg, hchildren, hkeeps, ?_⟩
  obtain ⟨hx, hnodup⟩ := List.nodup_cons.1 hnew.nodup
  refine ⟨hkeeps.isElement_iff.2 hnew.isElement, fun y hy => ?_, fun y hy => ?_, fun y hy => ?_, hnodup⟩
  · exact hkeeps.identities.mem_iff.2 (hnew.mem y (List.mem_cons_of_mem x hy))
  · rw [hkeeps.line]
    exact hnew.apart y (List.mem_cons_of_mem x hy)
  · rw [hchildren, mem_insertChild, not_or]
    exact ⟨fun heq => hx (heq ▸ hy), hnew.fresh y (List.mem_cons_of_mem x hy)⟩

theorem Insertable.exists_insertAll (hnew : Insertable f p new) (index : Int) :
    ∃ g, insertAll p index new f = .ok g ∧ g.children p = insertChildren index new (f.children p) ∧ Keeps p f g := by
  induction new generalizing f index with
  | nil => exact ⟨f, rfl, rfl, .refl p f⟩
  | cons x new ih =>
    obtain ⟨g, hg, hchildren, hkeeps, hrest⟩ := hnew.step index
    obtain ⟨h, hh, hchildren', hkeeps'⟩ := ih hrest (index + 1)
    refine ⟨h, by rw [insertAll, hg]; exact hh, ?_, hkeeps.trans hkeeps'⟩
    rw [hchildren', hchildren, insertChildren]

/-- Insertions that are not refused put in no node that holds the element. -/
theorem of_insertAll (hg : insertAll p index new f = .ok g) : ∀ x ∈ new, x ∉ f.line p := by
  induction new generalizing f index with
  | nil => simp
  | cons y new ih =>
    obtain ⟨h, hh, hrest⟩ := insertAll_cons_eq_ok_iff.1 hg
    have hrest := ih hrest
    rw [(Keeps.of_insert hh).line] at hrest
    exact List.forall_mem_cons.2 ⟨(insert_eq_ok_iff.1 hh).2.2.1, hrest⟩

/-- The children from `start` up to `stop` can be taken out, whatever the bounds are. -/
theorem exists_removeAll_slice (f : LiveForest) (p : Identity) (start stop : Int) :
    ∃ g, removeAll p (slice start stop (f.children p)) f = .ok g ∧ g.children p = outside start stop (f.children p) ∧
      Keeps p f g :=
  exists_removeAll (take_append_slice_append_drop start stop (f.children p)).symm

/-- Nodes that can be children, and are not among those that stay, are put in as a span of a list is replaced. -/
theorem exists_replaceSpan (hp : f.IsElement p) (hmem : ∀ x ∈ new, x ∈ f.identities) (hline : ∀ x ∈ new, x ∉ f.line p)
    (hout : ∀ x ∈ new, x ∉ outside start stop (f.children p)) (hnodup : new.Nodup) :
    ∃ g, f.replaceSpan p start stop new = .ok g ∧ g.children p = Omml.replaceSpan start stop new (f.children p) ∧
      Keeps p f g := by
  obtain ⟨h, hh, hchildren, hkeeps⟩ := exists_removeAll_slice f p start stop
  have hnew : Insertable h p new := by
    refine ⟨hkeeps.isElement_iff.2 hp, fun x hx => ?_, fun x hx => ?_, fun x hx => ?_, hnodup⟩
    · exact hkeeps.identities.mem_iff.2 (hmem x hx)
    · rw [hkeeps.line]
      exact hline x hx
    · rw [hchildren]
      exact hout x hx
  obtain ⟨g, hg, hchildren', hkeeps'⟩ := hnew.exists_insertAll start
  refine ⟨g, by rw [replaceSpan, hh]; exact hg, ?_, hkeeps.trans hkeeps'⟩
  rw [hchildren', hchildren, replaceSpan_eq]

/-- Only where none is asked for twice, and none holds the element, can nodes be put in so that they are its children. -/
theorem of_replaceSpan (hg : f.replaceSpan p start stop new = .ok g) (hin : new.Sublist (g.children p)) :
    new.Nodup ∧ ∀ x ∈ new, x ∉ f.line p := by
  obtain ⟨h, hh, -, hkeeps⟩ := exists_removeAll_slice f p start stop
  rw [replaceSpan, hh] at hg
  refine ⟨(g.nodup_children p).sublist hin, ?_⟩
  rw [← hkeeps.line]
  exact of_insertAll hg

/-- A span is collapsed by an insertion into what the build has left. -/
theorem collapse_eq_ok_iff {h h' : LiveForest} {build : Build} {b : Identity}
    (hremove : removeAll p (slice start stop (f.children p)) f = .ok h)
    (hbuild : build (slice start stop (f.children p)) h = .ok (b, h')) :
    f.collapse p start stop build = .ok (b, g) ↔ h'.insert p start b = .ok g := by
  have heq : f.collapse p start stop build = (h'.insert p start b).map fun g => (b, g) := by
    simp only [collapse, hremove, hbuild, bind, Except.bind]
    cases h'.insert p start b <;> rfl
  rw [heq]
  cases h'.insert p start b with
  | error refusal => simp [Except.map]
  | ok g' => simp [Except.map]

/-- Nodes that are not among the children that stay are put in as a slice is assigned, if they can be children at all. -/
theorem replaceSpan_assigns_iff {start : Nat} (hp : f.IsElement p)
    (hnew : ∀ x ∈ new, x ∈ f.identities ∧ x ∉ outside start stop (f.children p)) :
    (∃ g, f.replaceSpan p start stop new = .ok g ∧ g.children p = assignSlice start stop new (f.children p) ∧
        (g.node p).children = Omml.replaceSpan start stop (new.map g.node) ((f.children p).map g.node)) ↔
      new.Nodup ∧ ∀ x ∈ new, x ∉ f.line p := by
  constructor
  · rintro ⟨g, hg, hchildren, -⟩
    refine of_replaceSpan hg ?_
    rw [hchildren, assignSlice]
    exact (List.sublist_append_right ..).trans (List.sublist_append_left ..)
  · rintro ⟨hnodup, hline⟩
    obtain ⟨g, hg, hchildren, hkeeps⟩ :=
      exists_replaceSpan hp (fun x hx => (hnew x hx).1) hline (fun x hx => (hnew x hx).2) hnodup
    refine ⟨g, hg, hchildren.trans (replaceSpan_natCast start stop new (f.children p)), ?_⟩
    rw [children_node (hkeeps.isElement_iff.2 hp), hchildren, map_replaceSpan]

/-- What a build leaves in place of a span is put there, if it is no child and does not hold the element. -/
theorem collapse_assigns_iff {start stop : Nat} {h h' : LiveForest} {build : Build} {b : Identity} (hlt : start < stop)
    (hle : stop ≤ (f.children p).length) (hremove : removeAll p (slice start stop (f.children p)) f = .ok h)
    (hbuild : build (slice start stop (f.children p)) h = .ok (b, h')) (hp : h'.IsElement p)
    (hsame : h'.children p = h.children p) (hb : b ∈ h'.identities) :
    (∃ g, f.collapse p start stop build = .ok (b, g) ∧
        g.children p = (f.children p).take start ++ b :: (f.children p).drop stop ∧
        (g.node p).children = Repair.Span.collapse ⟨start, stop, fun _ => g.node b⟩ ((f.children p).map g.node)) ↔
      b ∉ h'.children p ∧ b ∉ h'.line p := by
  have hleft : h'.children p = (f.children p).take start ++ (f.children p).drop stop := by
    obtain ⟨h₀, hh₀, hleft, -⟩ := exists_removeAll_slice f p start stop
    obtain rfl : h₀ = h := Except.ok.inj (hh₀.symm.trans hremove)
    rw [hsame, hleft, outside_natCast hlt hle]
  simp only [collapse_eq_ok_iff hremove hbuild]
  constructor
  · rintro ⟨g, hg, hchildren, -⟩
    refine ⟨fun hin => ?_, (insert_eq_ok_iff.1 hg).2.2.1⟩
    have hnodup := g.nodup_children p
    rw [hchildren, List.nodup_middle, ← hleft] at hnodup
    exact (List.nodup_cons.1 hnodup).1 hin
  · rintro ⟨hout, hline⟩
    obtain ⟨g, hg⟩ := exists_insert hp hb hline start
    have hchildren : g.children p = (f.children p).take start ++ b :: (f.children p).drop stop := by
      rw [children_insert_eq hg hout, hleft, insertChild_take_append_drop hlt hle]
    refine ⟨g, hg, hchildren, ?_⟩
    rw [children_node ((Keeps.of_insert hg).isElement_iff.2 hp), hchildren, Repair.Span.collapse]
    simp only [List.map_append, List.map_cons, List.map_take, List.map_drop]

/-! ### What stands apart from a span -/

/-- A node that holds none of the nodes that are taken out, itself apart, is left as it was. -/
theorem alike_removeAll (hg : removeAll p span f = .ok g) (hc : ∀ x ∈ span, x ∈ f.inside c → x = c) : Alike c f g := by
  induction span generalizing f with
  | nil => cases hg; rfl
  | cons x span ih =>
    obtain ⟨-, hrest⟩ := removeAll_cons_eq_ok_iff.1 hg
    have hx := alike_detach (hc x (by simp))
    refine hx.trans (ih hrest fun y hy => ?_)
    rw [hx.inside]
    exact hc y (List.mem_cons_of_mem x hy)

/-- Nodes that are taken out stand alone, and so does what stood alone. -/
theorem alone_removeAll (hg : removeAll p span f = .ok g) (hc : f.Alone c ∨ c ∈ span) : g.Alone c := by
  induction span generalizing f with
  | nil => cases hg; exact hc.resolve_right List.not_mem_nil
  | cons x span ih =>
    obtain ⟨hmem, hrest⟩ := removeAll_cons_eq_ok_iff.1 hg
    refine ih hrest ?_
    rcases hc with hc | hc
    · exact .inl (alone_detach (.inl hc) (mem_identities_of_mem_children hmem))
    · exact (List.mem_cons.1 hc).imp_left fun heq => alone_detach (.inr heq) (mem_identities_of_mem_children hmem)

theorem alike_insertAll (hg : insertAll p index new f = .ok g) (hp : p ∉ f.inside c) (hc : ∀ x ∈ new, x ∈ f.inside c → x = c) :
    Alike c f g := by
  induction new generalizing f index with
  | nil => cases hg; rfl
  | cons x new ih =>
    obtain ⟨h, hh, hrest⟩ := insertAll_cons_eq_ok_iff.1 hg
    have hx := alike_insert hh hp (hc x (by simp))
    refine hx.trans (ih hrest ?_ fun y hy => ?_) <;> rw [hx.inside]
    · exact hp
    · exact hc y (List.mem_cons_of_mem x hy)

/-- The children of an element stand apart from each other. -/
theorem eq_of_mem_children_of_inside (hc : c ∈ f.children p) (hx : x ∈ f.children p) (hin : x ∈ f.inside c) : x = c :=
  (inside_of_mem_children hx hin).resolve_right (not_inside_of_mem_children hc)

/-- A node that does not hold the element, and of the new ones none but itself, is left as it was. -/
theorem alike_replaceSpan (hg : f.replaceSpan p start stop new = .ok g) (hp : p ∉ f.inside c)
    (hc : ∀ x ∈ new, x ∈ f.inside c → x = c) : Alike c f g := by
  obtain ⟨h, hh, -⟩ := exists_removeAll_slice f p start stop
  have hleft : Alike c f h :=
    alike_removeAll hh fun x hx hin => (inside_of_mem_children (mem_of_mem_slice hx) hin).resolve_right hp
  rw [replaceSpan, hh] at hg
  refine hleft.trans (alike_insertAll hg ?_ ?_) <;> rw [hleft.inside]
  · exact hp
  · exact hc

/--
New nodes that stand in no child that stays, and not in each other, read where they are put as they read before, and so do the
children that stay.
-/
theorem node_replaceSpan (hp : f.IsElement p) (hmem : ∀ x ∈ new, x ∈ f.identities) (hline : ∀ x ∈ new, x ∉ f.line p)
    (hout : ∀ x ∈ new, ∀ y ∈ outside start stop (f.children p), x ∉ f.inside y)
    (hapart : ∀ x ∈ new, ∀ y ∈ new, x ∈ f.inside y → x = y) (hnodup : new.Nodup) :
    ∃ g, f.replaceSpan p start stop new = .ok g ∧ g.children p = Omml.replaceSpan start stop new (f.children p) ∧
      (g.node p).children = Omml.replaceSpan start stop (new.map f.node) (f.node p).children := by
  obtain ⟨g, hg, hchildren, hkeeps⟩ := exists_replaceSpan hp hmem hline
    (fun x hx hin => hout x hx x hin (LiveTrees.mem_tree_self (hmem x hx))) hnodup
  refine ⟨g, hg, hchildren, ?_⟩
  rw [children_node (hkeeps.isElement_iff.2 hp), children_node hp, ← map_replaceSpan, hchildren]
  refine List.map_congr_left fun y hy => ?_
  rcases mem_replaceSpan.1 hy with hy | hy
  · exact (alike_replaceSpan hg (fun hin => hline y hy (mem_line_iff.2 hin)) fun x hx => hapart x hx y hy).node
  · have hself := not_inside_of_mem_children (mem_of_mem_outside hy)
    exact (alike_replaceSpan hg hself fun x hx hin => absurd hin (hout x hx y hy)).node

end Xml.LiveForest

/-! ### New nodes in the place of a span -/

namespace Xml.LiveForest

open Omml Repair

variable {f : LiveForest} {p x c e : Identity} {i : Nat}

/-- Roots that are put among the children of an element read there as they read before. -/
theorem exists_replaceSpan_roots {new : List Identity} (hp : f.IsElement p) (halone : ∀ x ∈ new, f.Alone x)
    (hline : ∀ x ∈ new, x ∉ f.line p) (hnodup : new.Nodup) (start stop : Int) :
    ∃ g, f.replaceSpan p start stop new = .ok g ∧
      (g.node p).children = Omml.replaceSpan start stop (new.map f.node) (f.node p).children := by
  have hapart : ∀ x ∈ new, ∀ y ∈ outside start stop (f.children p), x ∉ f.inside y := fun x hx y hy hin =>
    (halone x hx).not_mem_children ((halone x hx).eq_of_inside hin ▸ mem_of_mem_outside hy)
  obtain ⟨g, hg, -, hread⟩ := node_replaceSpan hp (fun x hx => (halone x hx).mem) hline hapart
    (fun x hx y _ => (halone x hx).eq_of_inside) hnodup
  exact ⟨g, hg, hread⟩

/-- A fragment in which a span is replaced by runs reads as its root does when the runs are put in there. -/
theorem exists_replaceSpan_edit {fragment : Fragment} {texts : List Text} {new : List Node} (hruns : runs texts = .ok new)
    {tag : Tag} {tail : Text} (hf : f = ofNodes (.element tag fragment.text fragment.children tail :: new)) (start stop : Int) :
    ∃ g, f.replaceSpan 0 start stop f.trees.roots.tail = .ok g ∧
      (g.node 0).children = (fragment.edit (.replace start stop texts)).1.children := by
  obtain ⟨ids, hroots⟩ : ∃ ids, f.trees.roots = 0 :: ids := by rw [hf]; exact ⟨_, rfl⟩
  have hp : f.IsElement 0 := by rw [hf]; rfl
  have halone : ∀ x ∈ 0 :: ids, f.Alone x := fun x hx => by rwa [Alone, hroots]
  obtain ⟨hout, hnodup⟩ := List.nodup_cons.1 (hroots ▸ f.distinct.sublist (LiveTrees.roots_sublist f.trees))
  have hline : ∀ x ∈ ids, x ∉ f.line 0 := fun x hx => by
    rw [(halone 0 List.mem_cons_self).line, List.mem_singleton]
    exact ne_of_mem_of_not_mem hx hout
  have hnodes := LiveTrees.nodes_eq_map_roots f.distinct
  rw [hroots, List.map_cons, hf, ofNodes, LiveTrees.nodes_number, ← ofNodes, ← hf] at hnodes
  obtain ⟨hroot, hnew⟩ := List.cons.inj hnodes
  obtain ⟨g, hg, hread⟩ :=
    exists_replaceSpan_roots hp (fun x hx => halone x (List.mem_cons_of_mem 0 hx)) hline hnodup start stop
  refine ⟨g, by rw [hroots]; exact hg, ?_⟩
  rw [hread, Fragment.edit, hruns]
  exact congrArg₂ (Omml.replaceSpan start stop) hnew.symm (congrArg Node.children hroot.symm)

/-! ### Slots that take the place of their construct -/

theorem length_line_of_mem_children (hx : x ∈ f.children p) : (f.line x).length = (f.line p).length + 1 := by
  rw [line_of_mem_children hx, List.length_append, List.length_singleton]

theorem isElement_of_isNamed {name : Text} (hx : x ∈ f.identities) (hname : (f.node x).isNamed name = true) :
    f.IsElement x := by
  obtain ⟨⟨label, children⟩, hfound⟩ := LiveTrees.exists_find? hx
  have hlabel : f.label? x = some label := by rw [LiveForest.label?, hfound, Option.map_some]
  rw [node_eq hlabel] at hname
  rw [IsElement, hlabel]
  cases label with
  | element => rfl
  | comment | instruction => cases hname

/-- A child gives way to what one of its own children holds. -/
theorem exists_replaceSpan_slot (hp : f.IsElement p) (hc : (f.children p)[i]? = some c) (he : e ∈ f.children c)
    (helement : f.IsElement e) :
    ∃ g, f.replaceSpan p i (i + 1 : Nat) (f.children e) = .ok g ∧
      (g.node p).children = (f.node p).children.take i ++ (f.node e).children ++ (f.node p).children.drop (i + 1) := by
  obtain ⟨hlt, hat⟩ := List.getElem?_eq_some_iff.1 hc
  have hcp : c ∈ f.children p := List.mem_of_getElem? hc
  have houtside : outside (i : Int) (i + 1 : Nat) (f.children p) = (f.children p).take i ++ (f.children p).drop (i + 1) :=
    outside_natCast (Nat.lt_succ_self i) hlt
  have hline : ∀ x ∈ f.children e, x ∉ f.line p := fun x hx hin => by
    refine not_mem_line_of_mem_children hx ?_
    rw [line_of_mem_children he, line_of_mem_children hcp]
    simp [hin]
  have hapart : c ∉ outside (i : Int) (i + 1 : Nat) (f.children p) := by
    have hnodup := f.nodup_children p
    rw [← List.take_append_drop i (f.children p), List.drop_eq_getElem_cons hlt, hat, List.nodup_middle] at hnodup
    rw [houtside]
    exact (List.nodup_cons.1 hnodup).1
  -- what stands two places below the element is neither one of its children nor below another child
  have hout : ∀ x ∈ f.children e, ∀ y ∈ outside (i : Int) (i + 1 : Nat) (f.children p), x ∉ f.inside y := by
    intro x hx y hy hin
    have hyp : y ∈ f.children p := mem_of_mem_outside hy
    have hy' := length_line_of_mem_children hyp
    have hc' := length_line_of_mem_children hcp
    have he' := length_line_of_mem_children he
    have hx' := length_line_of_mem_children hx
    rcases inside_of_mem_children hx hin with rfl | hin
    · omega
    rcases inside_of_mem_children he hin with rfl | hin
    · omega
    · exact ne_of_mem_of_not_mem hy hapart (eq_of_mem_children_of_inside hyp hcp hin).symm
  obtain ⟨g, hg, -, hread⟩ := node_replaceSpan hp (fun x hx => mem_identities_of_mem_children hx) hline hout
    (fun x hx y hy => eq_of_mem_children_of_inside hy hx) (f.nodup_children e)
  refine ⟨g, hg, ?_⟩
  have hlength : (f.node p).children.length = (f.children p).length := by rw [children_node hp, List.length_map]
  rw [hread, replaceSpan_natCast, ← children_node helement, assignSlice, hlength, position_natCast, position_natCast,
    Nat.min_eq_right hlt, Nat.min_eq_right (Nat.le_of_lt hlt), Nat.max_eq_right (Nat.le_succ i)]

/-- A box with a slot alone is unwrapped as it is in a list of nodes. -/
theorem exists_replaceSpan_unwrapBox (hp : f.IsElement p) (hc : (f.children p)[i]? = some c) (hslot : f.children c = [e])
    (hbox : (f.node c).isNamed "box" = true) (hname : (f.node e).isNamed "e" = true) :
    ∃ g, f.replaceSpan p i (i + 1 : Nat) (f.children e) = .ok g ∧
      (g.node p).children = (f.node p).children.take i ++ unwrapBox (f.node c) ++ (f.node p).children.drop (i + 1) := by
  have he : e ∈ f.children c := by simp [hslot]
  have hc' : f.IsElement c := isElement_of_isNamed (mem_identities_of_mem_children (List.mem_of_getElem? hc)) hbox
  have hchildren : (f.node c).children = [f.node e] := by rw [children_node hc', hslot, List.map_singleton]
  rw [unwrapBox_slot hbox hchildren hname]
  exact exists_replaceSpan_slot hp hc he (isElement_of_isNamed (mem_identities_of_mem_children he) hname)

/-- A construct with scripts that lacks one gives way to its base, as it does in a list of nodes. -/
theorem exists_replaceSpan_dissolveInvalid (hp : f.IsElement p) (hc : (f.children p)[i]? = some c)
    (hscript : (f.node c).isScript = true) {base : Node} (hbase : (f.node c).slot? "e" = some base)
    (hlacks : ((requiredSlots (f.node c)).all fun name => ((f.node c).slot? name).isSome) = false) :
    ∃ e ∈ f.children c, ∃ g, f.replaceSpan p i (i + 1 : Nat) (f.children e) = .ok g ∧
      (g.node p).children = (f.node p).children.take i ++ dissolveInvalid (f.node c) ++ (f.node p).children.drop (i + 1) := by
  have hc' : f.IsElement c := by
    obtain ⟨name, -, hname⟩ := List.any_eq_true.1 hscript
    exact isElement_of_isNamed (mem_identities_of_mem_children (List.mem_of_getElem? hc)) hname
  have hdissolve : dissolveInvalid (f.node c) = base.children := by
    rw [dissolveInvalid, if_pos hscript, hbase]
    exact if_neg (by simp [hlacks])
  have hname : base.isNamed "e" = true := by simpa using List.find?_some hbase
  have hmem := List.mem_of_find?_eq_some hbase
  rw [children_node hc'] at hmem
  obtain ⟨e, he, rfl⟩ := List.mem_map.1 hmem
  rw [hdissolve]
  exact ⟨e, he, exists_replaceSpan_slot hp hc he (isElement_of_isNamed (mem_identities_of_mem_children he) hname)⟩

end Xml.LiveForest

end EquationExport
