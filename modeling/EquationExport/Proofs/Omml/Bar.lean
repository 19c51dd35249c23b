import EquationExport.Proofs.Omml.Redex
import Mathlib.Data.List.TakeWhile

/-!
# Bars with digits

The digits behind a bar move from the run into scripts on the bar, and what stands before and behind them stays
in runs of its own. All of it is read in the order in which it stood in the run, and a subscript digit is read
as the digit that takes its place.
-/

namespace EquationExport.Omml

open Xml Xml.Node Repair

variable {parent : Text} {node : Node} {properties : Option Node}

/-! ### The text of a run -/

theorem barWithDigits?_eq_some {s digits rest : Text} (h : barWithDigits? s = some (digits, rest)) :
    s = normBar ++ (digits ++ rest) ∧ ∀ c ∈ digits, isScriptDigit c = true := by
  unfold barWithDigits? at h
  cases hbar : s.dropPrefix? normBar with
  | none => simp [hbar] at h
  | some behind =>
    rw [hbar] at h
    dsimp only [Text.span] at h
    by_cases hempty : (List.takeWhile isScriptDigit behind).isEmpty = true
    · rw [if_pos hempty] at h
      cases h
    · rw [if_neg hempty] at h
      obtain ⟨rfl, rfl⟩ := Prod.mk.inj (Option.some.inj h)
      refine ⟨?_, fun c hc => List.mem_takeWhile_imp hc⟩
      rw [List.takeWhile_append_dropWhile]
      exact Text.eq_append_of_dropPrefix? hbar

/-- The text in which a bar with digits is found: what stands before, the bar, its digits and what stands behind. -/
theorem exists_of_breakAt?_barWithDigits? {s before digits after : Text}
    (h : Text.breakAt? barWithDigits? s = some (before, digits, after)) :
    s = before ++ (normBar ++ (digits ++ after)) ∧ ∀ c ∈ digits, isScriptDigit c = true := by
  obtain ⟨found, rfl, hfound, -⟩ := Text.breakAt?_eq_some h
  obtain ⟨rfl, hdigits⟩ := barWithDigits?_eq_some hfound
  exact ⟨rfl, hdigits⟩

theorem hasSurrogate_append {s t : Text} :
    (s ++ t).hasSurrogate = false ↔ s.hasSurrogate = false ∧ t.hasSurrogate = false := by
  simp [Text.hasSurrogate]

theorem isSurrogate_of_isScriptDigit {c : CodePoint} (h : isScriptDigit c = true) : c.isSurrogate = false := by
  simp only [isScriptDigit, CodePoint.isAsciiDigit, CodePoint.inRange, Bool.or_eq_true, Bool.and_eq_true,
    decide_eq_true_eq] at h
  simp only [CodePoint.isSurrogate, CodePoint.inRange, Bool.and_eq_false_iff, decide_eq_false_iff_not]
  omega

theorem hasSurrogate_map_plainDigit {digits : Text} (h : ∀ c ∈ digits, isScriptDigit c = true) :
    Text.hasSurrogate (digits.map plainDigit) = false := by
  rw [Text.hasSurrogate_eq_false_iff]
  intro c hc
  obtain ⟨d, hd, rfl⟩ := List.mem_map.1 hc
  exact isSurrogate_of_isScriptDigit (CodePoint.isScriptDigit_plainDigit (h d hd)).1

/-! ### What is built from it -/

/-- The nodes may stand in a slot, and they are no groups of properties. -/
structure FillsPlace (l : List Node) : Prop extends FillsSlot l where
  groups : ∀ n ∈ l, label n ∉ readGroups

theorem FillsPlace.append {a b : List Node} (ha : FillsPlace a) (hb : FillsPlace b) : FillsPlace (a ++ b) where
  toFillsSlot := fillsSlot_append.2 ⟨ha.toFillsSlot, hb.toFillsSlot⟩
  groups n hn := (List.mem_append.1 hn).elim (ha.groups n) (hb.groups n)

theorem fillsPlace_singleton (h : FillsSlot [node]) (hlabel : label node ∉ readGroups) :
    FillsPlace [node] where
  toFillsSlot := h
  groups n hn := by rwa [List.mem_singleton.1 hn]

theorem groupValuesOf_of_fillsPlace {l : List Node} {group : Text} (h : FillsPlace l)
    (hgroup : group ∈ readGroups) (name : Text) : groupValuesOf group name l = [] := by
  have hnone : ∀ n ∈ l, n.isNamed group = false := by
    intro n hn
    rw [← Bool.not_eq_true]
    intro hnamed
    exact h.groups n hn (by rwa [label_eq_of_isNamed hnamed])
  exact groupValuesOf_eq_nil hnone name

theorem fillsPlace_runUnlessEmpty {text : Text} (hp : AreRunProperties properties) (h : text.hasSurrogate = false) :
    FillsPlace (runUnlessEmpty text properties) := by
  unfold runUnlessEmpty
  split
  · exact ⟨fillsSlot_nil, fun n hn => by cases hn⟩
  · exact fillsPlace_singleton (fillsSlot_run hp h) (show ("r" : Text) ∉ readGroups by decide)

theorem readings_runUnlessEmpty {text : Text} (hp : AreRunProperties properties) :
    readings (runUnlessEmpty text properties) = text := by
  unfold runUnlessEmpty
  split
  · next hempty => rw [readings_nil, List.isEmpty_iff.1 hempty]
  · rw [readings_cons, readings_nil, List.append_nil, reading_run hp]

theorem fillsPlace_scriptedBar {digits : Text} (hp : AreRunProperties properties) (h : digits.hasSurrogate = false) :
    FillsPlace [scriptedBar digits properties] := by
  have hbar : FillsSlot [run normBar properties] := fillsSlot_run hp (by decide)
  unfold scriptedBar
  split
  · next d e rest =>
    obtain ⟨hfirst, hrest⟩ := (hasSurrogate_append (s := [d])).1 h
    exact fillsPlace_singleton (fillsSlot_subSuperscript hbar (fillsSlot_run hp hfirst) (fillsSlot_run hp hrest))
      (show ("sSubSup" : Text) ∉ readGroups by decide)
  · exact fillsPlace_singleton (fillsSlot_subscript hbar (fillsSlot_run hp h))
      (show ("sSub" : Text) ∉ readGroups by decide)

theorem reading_scriptedBar {digits : Text} (hp : AreRunProperties properties) :
    reading (scriptedBar digits properties) = normBar ++ digits := by
  unfold scriptedBar
  split
  · rw [reading_subSuperscript]
    simp [reading_run hp]
  · rw [reading_subscript]
    simp [reading_run hp]

/-! ### One run -/

theorem isRun_of_splitNormRun? {new : List Node} (h : splitNormRun? node = some new) : node.isRun = true := by
  rw [← Bool.not_eq_false]
  intro hrun
  have hnone : Text.breakAt? barWithDigits? (node.runText?.getD []) = none := by
    rw [runText?, hrun]
    rfl
  rw [splitNormRun?, hnone] at h
  cases h

/-- A run that is split is read as before. -/
theorem Kept.splitNormRun? {new : List Node} (h : splitNormRun? node = some new) : Kept false parent [node] new := by
  have hrun : node.isRun = true := isRun_of_splitNormRun? h
  unfold Repair.splitNormRun? at h
  split at h
  · next before digits after hbreak =>
    obtain rfl := Option.some.inj h
    obtain ⟨htext, hdigits⟩ := exists_of_breakAt?_barWithDigits? hbreak
    intro hwithin
    have hproper := hwithin.proper
    have hp := areRunProperties_runProperties? hproper
    have hsound := hasSurrogate_runText hproper
    rw [htext, hasSurrogate_append, hasSurrogate_append, hasSurrogate_append] at hsound
    obtain ⟨hbefore, -, -, hafter⟩ := hsound
    have hnew : FillsPlace (runUnlessEmpty before node.runProperties? ++
        scriptedBar (digits.map plainDigit) node.runProperties? :: runUnlessEmpty after node.runProperties?) :=
      (fillsPlace_runUnlessEmpty hp hbefore).append ((fillsPlace_scriptedBar hp
        (hasSurrogate_map_plainDigit hdigits)).append (fillsPlace_runUnlessEmpty hp hafter))
    have hobject : IsObject (label node) := by
      rw [label_of_isRun hrun]
      decide
    refine Kept.of_object ⟨node, by simp, hobject⟩ (not_bare_of_isNamed hrun (by decide)) hnew.text ?_
      (fun _ => ⟨hnew.proper, ?_⟩) hwithin
    · intro group hgroup name _
      rw [groupValuesOf_of_fillsPlace hnew hgroup.mem,
        groupValuesOf_of_label hgroup.mem (label_of_isRun hrun) (by decide)]
    · have hread : reading node = before ++ (normBar ++ (digits ++ after)) := by
        rw [← htext, runText?_eq hproper hrun, Option.getD_some]
      rw [readings_append, readings_cons, readings_runUnlessEmpty hp, readings_runUnlessEmpty hp,
        reading_scriptedBar hp, readings_cons, readings_nil, List.append_nil, hread]
      simp only [Text.legible_append, Text.legible_map_plainDigit hdigits, List.append_assoc]
  · cases h

/-! ### One run after another -/

theorem Kept.splitFirstAmong? (nodes : List Node) :
    ∀ parent new, splitFirstAmong? nodes = some new → Kept false parent nodes new := by
  induction nodes using forest_induction with
  | nil => exact fun parent new hnew => by cases hnew
  | element tag text children tail rest ihc ihr =>
    intro parent new hnew
    simp only [Repair.splitFirstAmong?, splitFirstIn?] at hnew
    split at hnew
    · next inside hinside =>
      obtain rfl := Option.some.inj hnew
      refine Kept.append (a := [_]) ?_ (Kept.refl rest)
      split at hinside
      · next split hsplit =>
        obtain rfl := Option.some.inj hinside
        exact Kept.splitNormRun? hsplit
      · obtain ⟨children', hchildren, rfl⟩ := Option.map_eq_some_iff.1 hinside
        exact Kept.inside (ihc _ _ hchildren)
    · obtain ⟨rest', hrest', rfl⟩ := Option.map_eq_some_iff.1 hnew
      exact Kept.cons (Kept.refl _) (ihr parent rest' hrest')
  | comment content tail rest ih | instruction target content tail rest ih =>
    intro parent new hnew
    simp only [Repair.splitFirstAmong?, splitFirstIn?] at hnew
    obtain ⟨rest', hrest', rfl⟩ := Option.map_eq_some_iff.1 hnew
    exact Kept.cons (Kept.refl _) (ih parent rest' hrest')

theorem Kept.splitNormRunsFor (rounds : Nat) (nodes : List Node) :
    Kept false parent nodes (splitNormRunsFor rounds nodes) := by
  induction rounds generalizing nodes with
  | zero => exact Kept.refl nodes
  | succ rounds ih =>
    rw [Repair.splitNormRunsFor]
    split
    · next new hnew => exact (Kept.splitFirstAmong? nodes parent new hnew).trans (ih new)
    · exact Kept.refl nodes

end EquationExport.Omml
