import EquationExport.Proofs.Omml.Script

/-!
# Bases between delimiters

A base of scripts that stands between two runs with delimiters gets a delimiter construct instead of them. The
repair goes from the leaves up and changes no run, so the delimiters are still there when it comes to the base.
-/

namespace EquationExport.Omml

open Xml Xml.Node Repair

variable {parent : Text} {node : Node}

theorem wrapBasesAmong_eq_map (l : List Node) : wrapBasesAmong l = l.map wrapBases := by
  induction l with
  | nil => rfl
  | cons node l ih => rw [wrapBasesAmong, ih, List.map_cons]

/-- The objects whose ends are delimiters. -/
theorem exists_of_outerDelimiters? {objects : List Node} {opening closing : Text}
    (h : outerDelimiters? objects = some (opening, closing)) :
    ∃ (first : Node) (inner : List Node) (last : Node), objects = first :: (inner ++ [last]) ∧
      first.glyphs = opening ∧ closing? opening = some closing ∧ last.glyphs = closing ∧ last.isRun = true := by
  unfold outerDelimiters? at h
  split at h
  · next first last hfirst hlast =>
    split at h
    · next close hpair =>
      split at h
      · next hends =>
        simp only [Option.some.injEq, Prod.mk.injEq] at h
        obtain ⟨rfl, rfl⟩ := h
        simp only [Bool.and_eq_true, decide_eq_true_eq, beq_iff_eq] at hends
        obtain ⟨⟨hlength, hclose⟩, hrun⟩ := hends
        obtain ⟨front, rfl⟩ := List.getLast?_eq_some_iff.1 hlast
        cases front with
        | nil => simp at hlength
        | cons n inner =>
          obtain rfl : n = first := by simpa using hfirst
          exact ⟨n, inner, last, rfl, rfl, hpair, hclose, hrun⟩
      · cases h
    · cases h
  · cases h

theorem tag?_wrapBases (node : Node) : (wrapBases node).tag? = node.tag? := by
  cases node with
  | element tag text children tail =>
    simp only [wrapBases]
    split <;> rfl
  | comment | instruction => rfl

theorem name?_wrapBases (node : Node) : (wrapBases node).name? = node.name? := by
  rw [name?, name?, tag?_wrapBases]

theorem wrapBasesAmong_append (a b : List Node) : wrapBasesAmong (a ++ b) = wrapBasesAmong a ++ wrapBasesAmong b := by
  rw [wrapBasesAmong_eq_map, wrapBasesAmong_eq_map, wrapBasesAmong_eq_map, List.map_append]

/-- The bases among the children are wrapped, and that of the scripts themselves if it stands between delimiters. -/
theorem wrapBases_cases (tag : Tag) (text : Option Text) (children : List Node) (tail : Text) :
    wrapBases (element tag text children tail) = element tag text (wrapBasesAmong children) tail ∨
      ∃ front base behind opening closing, children = front ++ base :: behind ∧ base.isNamed "e" = true ∧
        outerDelimiters? base.children = some (opening, closing) ∧
        wrapBases (element tag text children tail) = element tag text (wrapBasesAmong front ++
          (wrapBases base).withChildren [Omml.delimiter opening closing (interior (wrapBases base).children)] ::
            wrapBasesAmong behind) tail := by
  simp only [wrapBases]
  split
  · next opening closing _ houter =>
    obtain ⟨base, hslot, hends⟩ := Option.bind_eq_some_iff.1 houter
    obtain ⟨hbase, front, behind, hchildren, hfront⟩ := List.find?_eq_some_iff_append.1 hslot
    obtain rfl : children = front ++ base :: behind := hchildren
    have hnamed : ∀ n : Node, (wrapBases n).isNamed "e" = n.isNamed "e" := fun n => by
      rw [isNamed, isNamed, name?_wrapBases]
    have hmapped : ∀ m ∈ wrapBasesAmong front, m.isNamed "e" = false := by
      intro m hm
      rw [wrapBasesAmong_eq_map] at hm
      obtain ⟨n, hn, rfl⟩ := List.mem_map.1 hm
      rw [hnamed]
      simpa using hfront n hn
    refine .inr ⟨front, base, behind, opening, closing, rfl, hbase, hends, ?_⟩
    rw [withChildren_element, children_element, wrapBasesAmong_append, wrapBasesAmong,
      modifyFirst_append _ _ _ hmapped (by rw [hnamed, hbase])]
  · exact .inl rfl

/-- Where there are no runs, no base stands between delimiters. -/
theorem wrapBasesAmong_of_bare (nodes : List Node) (h : Bare nodes) : wrapBasesAmong nodes = nodes := by
  induction nodes using forest_induction with
  | nil => rfl
  | element tag text children tail rest ihc ihr =>
    obtain ⟨hnode, hrest⟩ := everywhere_cons.1 h
    have hchildren : Bare children := (everywhere_singleton.1 hnode).2
    have hnone : ((element tag text children tail).slot? "e").bind (fun base => outerDelimiters? base.children) = none := by
      cases hslot : (element tag text children tail).slot? "e" with
      | none => rfl
      | some base =>
        have hbase : Bare base.children := hchildren.children (List.mem_of_find?_eq_some hslot)
        cases houter : outerDelimiters? base.children with
        | none => simpa using houter
        | some pair =>
          obtain ⟨first, inner, last, hobjects, hfirst, hpair, -, -⟩ := exists_of_outerDelimiters? houter
          have hglyphs : first.glyphs = [] := glyphs_of_bare hbase (by simp [hobjects])
          have hlength := (length_of_closing? hpair).1
          simp [← hfirst, hglyphs] at hlength
    rw [wrapBasesAmong, ihr hrest, wrapBases]
    simp only [hnone, ihc hchildren]
    cases (element tag text children tail).isScript <;> rfl
  | comment content tail rest ih | instruction target content tail rest ih =>
    rw [wrapBasesAmong, ih (everywhere_cons.1 h).2]
    rfl

theorem isScript_of_isNamed {name : Text} (h : node.isNamed name = true) (hname : name ∉ scriptNames) :
    node.isScript = false := isOneOf_of_isNamed h hname

theorem exists_scriptName (h : node.isScript = true) : ∃ name ∈ scriptNames, node.isNamed name = true := by
  simpa [isScript, isOneOf, List.any_eq_true] using h

/-- What is no script keeps its root. -/
theorem wrapBases_element {tag : Tag} {text : Option Text} {children : List Node} {tail : Text}
    (h : (element tag text children tail).isScript = false) :
    wrapBases (element tag text children tail) = element tag text (wrapBasesAmong children) tail := by
  simp only [wrapBases, h]

theorem wrapBases_of_isRun (h : AllProper false [node]) (hrun : node.isRun = true) : wrapBases node = node := by
  cases node with
  | element tag text children tail =>
    have hchildren : Bare children := bare_children_of_isRun h hrun
    rw [wrapBases_element (isScript_of_isNamed hrun (by decide)), wrapBasesAmong_of_bare children hchildren]
  | comment | instruction => rfl

/-- The base of scripts with its content between delimiters, where that was between runs. -/
theorem Kept.wrappedBase {base : Node} {opening closing : Text} (hbase : base.isNamed "e" = true)
    (houter : outerDelimiters? base.children = some (opening, closing)) (hproper : AllProper false [base]) :
    Kept false parent [wrapBases base]
      [(wrapBases base).withChildren [Omml.delimiter opening closing (interior (wrapBases base).children)]] := by
  cases base with
  | element tag text children tail =>
    obtain ⟨first, inner, last, rfl, hfirst, hpair, hlast, hrun⟩ := exists_of_outerDelimiters? houter
    obtain ⟨hopening, hclosing⟩ := length_of_closing? hpair
    have hbelow := (everywhere_singleton.1 hproper).2
    have hfirstrun : first.isRun = true := isRun_of_glyphs (by rw [hfirst]; exact ne_nil_of_length hopening)
    have hchildren : wrapBasesAmong (first :: (inner ++ [last])) = first :: (wrapBasesAmong inner ++ [last]) := by
      rw [wrapBasesAmong_eq_map, wrapBasesAmong_eq_map, List.map_cons, List.map_append, List.map_singleton,
        wrapBases_of_isRun (hbelow.of_mem (by simp)) hfirstrun, wrapBases_of_isRun (hbelow.of_mem (by simp)) hrun]
    rw [wrapBases_element (isScript_of_isNamed hbase (by decide)), hchildren, children_element, withChildren_element,
      interior_cons_append]
    refine Kept.inside ?_
    have hlabel : label (element tag text (first :: (wrapBasesAmong inner ++ [last])) tail) = "e" :=
      label_eq_of_isNamed hbase
    rw [hlabel, ← hfirst]
    exact Kept.delimiter _ (by decide) (by rw [hfirst, hopening]) (.inr ⟨last, rfl, hlast, hclosing⟩)
  | comment | instruction => cases hbase

theorem Kept.wrapBasesAmong (nodes : List Node) : ∀ parent, Kept false parent nodes (wrapBasesAmong nodes) := by
  induction nodes using forest_induction with
  | nil => exact fun parent => Kept.refl []
  | element tag text children tail rest ihc ihr =>
    intro parent
    refine Kept.cons ?_ (ihr parent)
    have hinside : Kept false parent [element tag text children tail]
        [element tag text (Repair.wrapBasesAmong children) tail] := Kept.inside (ihc _)
    rcases wrapBases_cases tag text children tail with
      heq | ⟨front, base, behind, opening, closing, rfl, hbase, hends, heq⟩
    · rw [heq]
      exact hinside
    · rw [heq]
      intro hwithin
      have hproper : AllProper false [base] := (everywhere_singleton.1 hwithin.proper).2.of_mem (by simp)
      have hwrapped : Kept false parent
          [element tag text (Repair.wrapBasesAmong front ++ wrapBases base :: Repair.wrapBasesAmong behind) tail] _ :=
        Kept.inside ((Kept.refl (Repair.wrapBasesAmong front)).append
          (Kept.cons (Kept.wrappedBase hbase hends hproper) (Kept.refl (Repair.wrapBasesAmong behind))))
      rw [wrapBasesAmong_append, Repair.wrapBasesAmong] at hinside
      exact (hinside.trans hwrapped) hwithin
  | comment content tail rest ih | instruction target content tail rest ih =>
    exact fun parent => Kept.cons (Kept.refl _) (ih parent)

end EquationExport.Omml
