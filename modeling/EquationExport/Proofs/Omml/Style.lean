import EquationExport.Proofs.Omml.Kept

/-!
# Styles and text

An undefined property and run properties without content are not read, and nothing asks for them, so they may
go. A text that is cleaned is read like the text before.
-/

namespace EquationExport.Omml

open Xml Xml.Node Repair

variable {strict : Bool} {parent : Text} {node : Node}

/-! ### Leaving nodes out -/

/-- The tag of an element has the label; there may be no element. -/
def Labelled (tag : Option Tag) (parent : Text) : Prop := ∀ t ∈ tag, t.name.localPart = parent

theorem labelled_some (tag : Tag) (text : Option Text) (l : List Node) (tail : Text) :
    Labelled (some tag) (label (element tag text l tail)) := by
  intro t ht
  obtain rfl := Option.mem_some.1 ht
  rfl

/-- Nodes are left out of a whole tree if each may be left out of its place. -/
theorem Kept.pruneAll {keep : Option Tag → Node → Bool}
    (hdrop : ∀ tag parent n, Labelled tag parent → keep tag n = false → Kept strict parent [n] []) (nodes : List Node) :
    ∀ tag parent, Labelled tag parent → Kept strict parent nodes (pruneAll keep tag nodes) := by
  induction nodes using forest_induction with
  | nil => exact fun tag parent _ => Kept.refl []
  | element name text children tail rest ihc ihr =>
    intro tag parent h
    rw [Xml.pruneAll]
    split
    · exact Kept.cons (Kept.inside (ihc (some name) _ (labelled_some name text children tail))) (ihr tag parent h)
    · next hkeep =>
      rw [Bool.not_eq_true] at hkeep
      exact Kept.append (hdrop tag parent _ h hkeep) (ihr tag parent h)
  | comment content tail rest ih | instruction target content tail rest ih =>
    intro tag parent h
    rw [Xml.pruneAll]
    split
    · exact Kept.cons (Kept.refl _) (ih tag parent h)
    · next hkeep =>
      rw [Bool.not_eq_true] at hkeep
      exact Kept.append (hdrop tag parent _ h hkeep) (ih tag parent h)

/-- A group of properties may hold anything but text. -/
theorem kindOf_of_group (h : parent.endsWith "Pr" = true) : kindOf parent = .other := by
  cases hkind : kindOf parent with
  | text =>
    obtain rfl := kindOf_eq_text hkind
    exact absurd h (by decide)
  | run =>
    obtain rfl := kindOf_eq_run hkind
    exact absurd h (by decide)
  | nary =>
    obtain rfl := kindOf_eq_nary hkind
    exact absurd h (by decide)
  | script slots =>
    rcases kindOf_eq_script hkind with ⟨rfl, -⟩ | ⟨rfl, -⟩ | ⟨rfl, -⟩ <;> exact absurd h (by decide)
  | other => rfl

/-- A property that is undefined, out of its group. -/
theorem Kept.dropUndefined (hpr : parent.endsWith "Pr" = true) (h : isUndefined node = true) :
    Kept false parent [node] [] := by
  intro hwithin
  have hkind : kindOf parent = .other := kindOf_of_group hpr
  have hlabel : label node ∉ glyphProperties := by
    intro hmem
    rw [(everywhere_singleton.1 hwithin.proper).1.defined hmem] at h
    cases h
  have htext : ("t" : Text) ∉ labels [node] := by
    obtain ⟨front, rest, haccepts⟩ := hwithin.accepts
    have hnot := ((accepts_other hkind).1 haccepts).1
    simp only [List.mem_append, not_or] at hnot
    exact hnot.1.2
  refine ⟨everywhere_nil, fun _ => everywhere_nil, ?_, fun front rest haccepts => ?_, fun _ name hname => ?_,
    fun group hgroup => ?_⟩
  · rw [readings_eq_nil hwithin.proper (hwithin.bare hpr) htext, readings_nil]
  · rw [accepts_other hkind] at haccepts ⊢
    simp only [List.mem_append, not_or] at haccepts
    refine ⟨?_, by simp⟩
    simp only [labels_nil, List.append_nil, List.mem_append, not_or]
    exact ⟨haccepts.1.1.1, haccepts.1.2⟩
  · rw [valuesOf_of_label hname hlabel]
    rfl
  · rcases hgroup with ⟨rfl, -⟩ | ⟨rfl, -⟩
    · exact absurd hpr (by decide)
    · exact absurd hpr (by decide)

/-- Nothing asks for run properties. -/
theorem accepts_without_rPr {front rest : List Text} (h : Accepts false parent (front ++ ("rPr" : Text) :: rest)) :
    Accepts false parent (front ++ rest) := by
  cases hkind : kindOf parent with
  | text =>
    simp only [Accepts, hkind] at h
    simp at h
  | run =>
    simp only [Accepts, hkind] at h ⊢
    exact fun child hchild => h child (by
      rcases List.mem_append.1 hchild with hchild | hchild <;> simp [hchild])
  | script slots =>
    have hslots : ("rPr" : Text) ∉ slots := by
      rcases kindOf_eq_script hkind with ⟨-, rfl⟩ | ⟨-, rfl⟩ | ⟨-, rfl⟩ <;> decide
    simp only [Accepts, hkind] at h ⊢
    obtain ⟨group, heq, rfl | ⟨properties, rfl, -⟩⟩ := h
    · rw [List.nil_append] at heq
      exact absurd (by simp [← heq]) hslots
    · -- the run properties were the group of the scripts
      cases front with
      | nil =>
        obtain ⟨-, rfl⟩ := List.cons.inj heq
        exact ⟨[], rfl, .inl rfl⟩
      | cons x front =>
        obtain ⟨-, rfl⟩ := List.cons.inj heq
        exact absurd (by simp) hslots
  | nary =>
    simp only [Accepts, hkind] at h
    exact absurd (h.subset (a := "rPr") (by simp)) (by decide)
  | other =>
    rw [accepts_other hkind] at h ⊢
    simp only [List.mem_append, List.mem_cons, not_or] at h ⊢
    exact ⟨⟨h.1.1, h.1.2.2⟩, by simp⟩

/-- Run properties without content. -/
theorem Kept.dropRunProperties (h : isEmptyRunProperties node = true) : Kept false parent [node] [] := by
  obtain ⟨hnamed, hempty⟩ := Bool.and_eq_true_iff.1 h
  have hlabel : label node = "rPr" := label_eq_of_isNamed hnamed
  intro hwithin
  refine ⟨everywhere_nil, fun _ => everywhere_nil, ?_, fun front rest haccepts => ?_, fun _ name hname => ?_,
    fun group hgroup name _ => ?_⟩
  · rw [readings_cons, readings_nil, reading_eq_readings_children hwithin.proper (by rw [hlabel]; decide),
      List.isEmpty_iff.1 hempty]
    rfl
  · rw [labels_cons, hlabel, labels_nil, List.append_assoc] at haccepts
    rw [labels_nil, List.append_nil]
    exact accepts_without_rPr haccepts
  · rw [valuesOf_of_label hname (by rw [hlabel]; decide)]
    rfl
  · rw [groupValuesOf_of_label hgroup.mem hlabel (by decide)]
    rfl

theorem Kept.removeUndefinedStyles {f : Fragment} (parent : Text) :
    Kept false parent f.children (removeUndefinedStyles f).children := by
  have hnone : Labelled none parent := fun t ht => by cases ht
  have hdefined : Kept false parent f.children
      (Xml.pruneAll (fun parent node => !(parent.any isPropertyGroup && isUndefined node)) none f.children) := by
    refine Kept.pruneAll (fun tag parent n htag hkeep => ?_) f.children none parent hnone
    obtain ⟨hgroup, hundefined⟩ : tag.any isPropertyGroup = true ∧ isUndefined n = true := by simpa using hkeep
    cases tag with
    | none => cases hgroup
    | some t =>
      obtain rfl : t.name.localPart = parent := htag t rfl
      exact Kept.dropUndefined hgroup hundefined
  refine hdefined.trans (Kept.pruneAll (fun tag parent n htag hkeep => ?_) _ none parent hnone)
  exact Kept.dropRunProperties (by simpa using hkeep)

/-! ### Cleaning texts -/

theorem Kept.normalizeTextElement (parent : Text) (node : Node) :
    Kept strict parent [node] [normalizeTextElement node] := by
  cases node with
  | element tag text children tail =>
    rw [Repair.normalizeTextElement]
    by_cases ht : (element tag text children tail).isNamed "t" = true
    · rw [if_pos ht]
      refine Kept.retag ?_ (by rw [label_eq_of_isNamed ht]; decide) fun hsound => ⟨?_, ?_⟩
      · split
        · exact Tag.name_setAttribute ..
        · rfl
      · exact Text.hasSurrogate_plainSpaces (Text.hasSurrogate_sanitize hsound)
      · rw [Option.getD_some, Text.legible_plainSpaces, Text.legible_sanitize hsound]
    · rw [if_neg ht]
      exact Kept.refl _
  | comment | instruction => exact Kept.refl _

end EquationExport.Omml
