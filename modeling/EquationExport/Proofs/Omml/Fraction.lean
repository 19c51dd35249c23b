import EquationExport.Proofs.Omml.Lasting

/-!
# Where fractions come from

One repair alone builds fractions, the one that puts a flattened fraction together again, and it goes by shape:
an integral, a run, a one with a plus that may be missing, and a sum, between delimiters that are a pair. So a
fragment without a fraction has none after the repairs, unless a container holds that shape when it is the
turn of that repair.
-/

namespace EquationExport.Omml

open Xml Xml.Node Repair

/-- No element is a fraction, at any depth. -/
abbrev Unfractioned (nodes : List Node) : Prop := Everywhere (fun n => n.isNamed "f" = false) nodes

theorem hasFraction_eq_false_iff {f : Fragment} : f.hasFraction = false ↔ Unfractioned f.children := by
  simp [Fragment.hasFraction, Fragment.nodes, Everywhere]

/-- To be no fraction lasts, as long as no flattened fraction is put together. -/
theorem lasting_unfractioned : Lasting (fun _ => True) (fun n => n.isNamed "f" = false) where
  isLocal := (byName_isNamed "f" false).isLocal
  own := fun _ _ => trivial
  built := fun name hname => by
    have hall : ∀ name ∈ builtNames, (name == ("f" : Text)) = false := by decide
    rw [isNamed_mathElement, hall name hname]
  textElement := fun _ _ => rfl
  setValue := fun value node _ h => by rwa [isNamed_setAttribute]
  normalized := fun node h => by
    cases node with
    | element tag text children tail =>
      simp only [normalizeTextElement]
      split
      · refine byName_isNamed "f" false _ _ ?_ h
        split
        · exact congrArg some (Tag.name_setAttribute ..).symm
        · rfl
      · exact h
    | comment | instruction => exact h
  text := fun _ _ _ _ => trivial

theorem unfractioned_foldl_apply (rules : List RepairRule) (hrules : .rebuildFractions ∉ rules)
    (start : Fragment × RepairState) (h : Unfractioned start.1.children) :
    Unfractioned (rules.foldl (fun (f, state) rule => rule.apply state f) start).1.children :=
  lasting_unfractioned.foldl rules (fun hmem => absurd hmem hrules) start h

/-! ### Flattened fractions -/

/-- The repairs that are done before a flattened fraction is put together. -/
def rulesBeforeFractions : List RepairRule := RepairRule.all.takeWhile (· != .rebuildFractions)

/-- The repairs that are done after that. -/
def rulesAfterFractions : List RepairRule := (RepairRule.all.dropWhile (· != .rebuildFractions)).drop 1

theorem all_eq_append : RepairRule.all = rulesBeforeFractions ++ .rebuildFractions :: rulesAfterFractions := rfl

namespace Fragment

/-- The fragment when it is the turn of the repair that puts flattened fractions together. -/
def beforeFractions (f : Fragment) : Fragment := f.applyRules rulesBeforeFractions

/-- In a container stand, one behind the other, the objects of a flattened fraction. -/
def HoldsFlattened (f : Fragment) : Prop :=
  ∃ container ∈ f.containers,
    ∃ (front : List Node) (opening integral text : Node) (plus : List Node) (sum last : Node) (rest : List Node)
      (close : Text),
      container.children = front ++ opening :: integral :: text :: (plus ++ sum :: last :: rest) ∧
        Flattened opening integral text plus sum last close

variable {f : Fragment}

theorem isSome_fractionSpan {opening integral text sum last : Node} {plus : List Node} {close : Text}
    (h : Flattened opening integral text plus sum last close) (i : Nat) (front rest : List Node) :
    (fractionSpan i (front ++ opening :: integral :: text :: (plus ++ sum :: last :: rest))).isSome := by
  induction front generalizing i with
  | nil =>
    have hsum : isOnePlus sum = false := by
      have hnary : sum.isNamed "nary" = true := (Bool.and_eq_true_iff.1 h.isSum).1
      have hrun : sum.isRun = false := isNamed_of_isNamed hnary (by decide)
      simp [isOnePlus, runText?, hrun]
    have hlength : (denominatorLength? close (plus ++ sum :: last :: rest)).isSome := by
      rcases h.isPlus with rfl | ⟨one, rfl, hone⟩
      · simp [denominatorLength?, hsum, h.isSum, h.closes, h.isRun]
      · simp [denominatorLength?, hone, h.isSum, h.closes, h.isRun]
    obtain ⟨n, hn⟩ := Option.isSome_iff_exists.1 hlength
    simp [fractionSpan, h.pair, h.isIntegral, h.isText, hn]
  | cons node front ih =>
    simp only [List.cons_append, fractionSpan]
    split
    · rfl
    · exact ih (i + 1)

/-- A fraction is put together exactly where the objects of a flattened one stand. -/
theorem rebuildFractions_snd_iff : (rebuildFractions f).2 = true ↔ f.HoldsFlattened := by
  rw [rebuildFractions, sweepUntilStable_snd_iff rfl]
  constructor
  · rintro ⟨container, hmem, hfound⟩
    obtain ⟨span, hspan⟩ := Option.isSome_iff_exists.1 hfound
    obtain ⟨front, old, rest, hchildren, -, -, opening, integral, text, plus, sum, last, close, rfl, hflat, -⟩ :=
      covers_of_fractionSpan hspan
    exact ⟨container, hmem, front, opening, integral, text, plus, sum, last, rest, close,
      by simpa using hchildren, hflat⟩
  · rintro ⟨container, hmem, front, opening, integral, text, plus, sum, last, rest, close, hchildren, hflat⟩
    exact ⟨container, hmem, hchildren ▸ isSome_fractionSpan hflat 0 front rest⟩

theorem rebuildFractions_of_not_holds (h : ¬ f.HoldsFlattened) : rebuildFractions f = (f, false) :=
  sweepUntilStable_of_unchanged (Bool.eq_false_iff.2 (mt rebuildFractions_snd_iff.1 h))

/-- A fragment without a fraction has none after all repairs, unless the objects of a flattened one are there. -/
theorem hasFraction_repair_of_not_holds (hnone : f.hasFraction = false) (h : ¬ f.beforeFractions.HoldsFlattened) :
    (f.repair []).hasFraction = false := by
  have hrules : RepairRule.all.filter (fun rule => !([] : List Text).contains rule.name) = RepairRule.all := rfl
  have hrepair : f.repair [] = f.applyRules RepairRule.all := by
    simp only [repair, hrules, hnone, Bool.false_and, Bool.false_eq_true, if_false]
  have hfirst : Unfractioned f.beforeFractions.children :=
    unfractioned_foldl_apply _ (by decide) _ (hasFraction_eq_false_iff.1 hnone)
  rw [hasFraction_eq_false_iff, hrepair, applyRules, all_eq_append, List.foldl_append]
  rw [beforeFractions, applyRules] at h hfirst
  generalize rulesBeforeFractions.foldl (fun (f, state) rule => rule.apply state f) (f, f.repairState) = start
    at h hfirst ⊢
  have hstep : (RepairRule.rebuildFractions.apply start.2 start.1).1 = start.1 := by
    rw [RepairRule.apply.eq_def, rebuildFractions_of_not_holds h]
  rw [List.foldl_cons]
  refine unfractioned_foldl_apply rulesAfterFractions (by decide) _ ?_
  rwa [← hstep] at hfirst

end Fragment

end EquationExport.Omml
