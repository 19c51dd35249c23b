import EquationExport.Proofs.Omml.Stretched
import Mathlib.Logic.Relation

/-!
# The second pass saves no fraction

A fragment that loses all its fractions is repaired once more, without stretching delimiters around tall constructs.
That is of no use: what comes after the stretching takes as much from the plain tree as from the one with delimiters.
Two things are asked of the fragment. No run holds a fraction, for with a pair of runs that become delimiters it would
go. And no slot for the base of a box or a script holds a slot itself; where such a script is taken apart, its slot may
serve the script around it, and between delimiters it does not.
-/

namespace EquationExport.Omml

open Xml Xml.Node Repair Relation

variable {a b l : List Node} {node : Node} {f g : Fragment}

/-! ### After the stretching -/

/-- The repairs that come after the stretching of delimiters. -/
def afterPromotion (f : Fragment) : Fragment := normalizeTexts (removeUndefinedStyles (repairInvalidScripts f))

/-- Where no fraction is new, none was before. -/
theorem congruence_losesNone : Congruence fun old new => Unfractioned new → Unfractioned old where
  refl _ h := h
  trans hab hbc h := hab (hbc h)
  append hab hcd h := everywhere_append.2 ((everywhere_append.1 h).imp hab hcd)
  inside hl h := by
    obtain ⟨hroot, hbelow⟩ := everywhere_singleton.1 h
    exact everywhere_singleton.2 ⟨hroot, hl hbelow⟩

/-- A fraction is left when undefined properties are out, or none is left at the end. -/
theorem unfractioned_afterPromotion_iff : Unfractioned (afterPromotion f).children ↔
    Unfractioned (pruneAll keepsDefined none (repairInvalidScripts f).children) := by
  have hP := lasting_unfractioned
  constructor
  · intro h
    have hK := congruence_losesNone
    refine hK.pruneAll (fun _ n hkeep _ => ?_) _ none (hK.rebuildAll (fun n hn => ?_) _ h)
    · have hempty : isEmptyRunProperties n = true := by simpa using hkeep
      obtain ⟨hnamed, hchildren⟩ := Bool.and_eq_true_iff.1 hempty
      refine everywhere_singleton.2 ⟨isNamed_of_isNamed hnamed (by decide), ?_⟩
      rw [List.isEmpty_iff.1 hchildren]
      exact everywhere_nil
    · obtain ⟨hroot, hbelow⟩ := everywhere_singleton.1 hn
      rw [children_normalizeTextElement] at hbelow
      have hsame : SameName n (normalizeTextElement n) := name?_normalizeTextElement n
      exact everywhere_singleton.2 ⟨by rwa [hsame.isNamed] at hroot, hbelow⟩
  · intro h
    exact hP.isLocal.rebuildAll hP.normalizeTextElement _ (hP.isLocal.pruneAll _ _ _ h)

/-- The repairs after the stretching leave a fraction of the stretched tree if they leave one of the plain tree. -/
theorem unfractioned_afterPromotion (h : ReflTransGen Stretched f.children g.children)
    (hnone : Unfractioned (afterPromotion g).children) : Unfractioned (afterPromotion f).children := by
  rw [unfractioned_afterPromotion_iff] at hnone ⊢
  have hdissolved : ReflTransGen Stretched (repairInvalidScripts f).children (repairInvalidScripts g).children :=
    ReflTransGen.lift (fun l => rebuildAll dissolveInvalid (rebuildAll dissolveInvalid l))
      (fun _ _ hstep => hstep.dissolve.dissolve) _ _ h
  generalize (repairInvalidScripts g).children = b at hdissolved hnone
  induction hdissolved with
  | refl => exact hnone
  | tail _ hstep ih => exact ih (hstep.unfractioned_prune id hnone)

/-! ### Runs without fractions -/

/-- No run holds a fraction. -/
def UnfractionedRun (node : Node) : Prop := node.isRun = true → Unfractioned node.children

instance (node : Node) : Decidable (UnfractionedRun node) :=
  inferInstanceAs (Decidable (node.isRun = true → Unfractioned node.children))

theorem concerns_unfractionedRun : Concerns ["r"] UnfractionedRun := by
  intro node hother hrun
  rw [isOneOf, List.any_cons, List.any_nil, Bool.or_false, ← isRun, hrun] at hother
  cases hother

theorem unfractionedRuns_of_unfractioned (h : Unfractioned l) : Everywhere UnfractionedRun l := h.below.mono fun _ hn _ => hn

/-- A run that holds no fraction is none. -/
theorem unfractioned_of_isRun (h : UnfractionedRun node) (hrun : node.isRun = true) : Unfractioned [node] :=
  everywhere_singleton.2 ⟨isNamed_of_isNamed hrun (by decide), h hrun⟩

/-- Where no run holds a fraction, none does in the new nodes; and these hold none if the old hold none. -/
def KeepsRuns (old new : List Node) : Prop :=
  Everywhere UnfractionedRun old → Everywhere UnfractionedRun new ∧ (Unfractioned old → Unfractioned new)

theorem congruence_keepsRuns : Congruence KeepsRuns where
  refl _ h := ⟨h, id⟩
  trans hab hbc h := ⟨(hbc (hab h).1).1, fun ha => (hbc (hab h).1).2 ((hab h).2 ha)⟩
  append hab hcd h := by
    obtain ⟨ha, hc⟩ := everywhere_append.1 h
    exact ⟨everywhere_append.2 ⟨(hab ha).1, (hcd hc).1⟩,
      fun h => everywhere_append.2 ((everywhere_append.1 h).imp (hab ha).2 (hcd hc).2)⟩
  inside {tag text l l' tail} hl h := by
    obtain ⟨hroot, hbelow⟩ := everywhere_singleton.1 h
    obtain ⟨hruns, hnone⟩ := hl hbelow
    refine ⟨everywhere_singleton.2 ⟨fun hrun => hnone (hroot hrun), hruns⟩, fun h => ?_⟩
    obtain ⟨hname, hchildren⟩ := everywhere_singleton.1 h
    exact everywhere_singleton.2 ⟨hname, hnone hchildren⟩

/-- No repair but one puts a fraction into a run. -/
theorem steps_keepsRuns : Steps KeepsRuns := by
  have hR := concerns_unfractionedRun
  have hF := lasting_unfractioned.steps
  have hnary : ∀ sign sub sup location, isGlyphOf largeOperators sign = true → Everywhere UnfractionedRun sub →
      Everywhere UnfractionedRun sup → Everywhere UnfractionedRun [nary sign sub sup [] location] :=
    fun sign sub sup location _ hsub hsup => hR.nary (by decide) sign location (everywhere_cons.2
      ⟨hR.construct (by decide) hsub, everywhere_cons.2 ⟨hR.construct (by decide) hsup, hR.construct (by decide) everywhere_nil⟩⟩)
  have hruns : OneStep fun old new => Everywhere UnfractionedRun old → Everywhere UnfractionedRun new := by
    refine hR.oneStep (by decide) hnary (fun n new hnew h => ?_) fun text => ?_
    · have hrun : Unfractioned [n] := unfractioned_of_isRun (everywhere_singleton.1 h).1 (isRun_of_splitNormRun? hnew)
      exact unfractionedRuns_of_unfractioned (hF.splitNormRun n new hnew hrun)
    · exact unfractionedRuns_of_unfractioned (lasting_unfractioned.plainRun text)
  exact { congruence_keepsRuns, hruns.combine hF.toOneStep fun hruns hnone h => ⟨hruns h, hnone⟩ with }

/-! ### The stretching -/

/-- No run holds a fraction, and no slot for the base of a box or a script holds a slot. -/
def IsPlain (l : List Node) : Prop := Everywhere UnfractionedRun l ∧ Everywhere (GivesNone slotNames) l

theorem steps_givesNoSlot : Steps (GivesOn slotNames) := steps_givesOn (by decide) (by decide)

theorem isPlain_append : IsPlain (a ++ b) ↔ IsPlain a ∧ IsPlain b := by
  rw [IsPlain, IsPlain, IsPlain, everywhere_append, everywhere_append, and_and_and_comm]

theorem IsPlain.of_stretched (h : IsPlain a) (hab : ReflTransGen Stretched a b) : IsPlain b := by
  induction hab with
  | refl => exact h
  | tail _ hstep ih =>
    exact ⟨(congruence_keepsRuns.of_stretched steps_keepsRuns.enclose hstep ih.1).1,
      (steps_givesNoSlot.toCongruence.of_stretched steps_givesNoSlot.enclose hstep ih.2).givesNone⟩

/-- From nodes that are plain, the new ones come by stretching delimiters. -/
def Stretches (old new : List Node) : Prop := IsPlain old → ReflTransGen Stretched old new

theorem congruence_stretches : Congruence Stretches where
  refl _ _ := .refl
  trans hab hbc h := (hab h).trans (hbc (h.of_stretched (hab h)))
  append {a a' b b'} ha hb h := by
    obtain ⟨hplain, hplain'⟩ := isPlain_append.1 h
    have hfront : ReflTransGen Stretched (a ++ b) (a' ++ b) :=
      ReflTransGen.lift (· ++ b) (fun _ _ hstep => hstep.append (.refl b)) _ _ (ha hplain)
    have hbehind : ReflTransGen Stretched (a' ++ b) (a' ++ b') :=
      ReflTransGen.lift (a' ++ ·) (fun _ _ hstep => (Stretched.refl a').append hstep) _ _ (hb hplain')
    exact hfront.trans hbehind
  inside {tag text l l' tail} hl h := by
    have hbelow : IsPlain l := ⟨(everywhere_singleton.1 h.1).2, (everywhere_singleton.1 h.2).2⟩
    exact ReflTransGen.lift (fun l => [element tag text l tail]) (fun _ _ hstep => .inside hstep .nil) _ _ (hl hbelow)

/-- A tall construct is no slot. -/
theorem holdsNoSlot_of_isTall (h : Everywhere (GivesNone slotNames) [node]) (htall : node.isTall = true) :
    HoldsNoSlot [node] := by
  have hall : ∀ name ∈ slotNames, name ∉ tallConstructs := by decide
  refine ⟨h, lacks_singleton.2 (List.any_eq_false.2 fun name hname hnamed => ?_)⟩
  have hflat : node.isTall = false := isOneOf_of_isNamed hnamed (hall name hname)
  rw [htall] at hflat
  cases hflat

theorem relates_promotionSpan : Relates Stretches (promotionSpan 0) IsStretched where
  covers _ _ := covers_isStretched
  name := by
    rintro old build a b ⟨opening, tall, last, close, -, -, -, -, rfl⟩
    exact sameName_delimiter ..
  step := by
    rintro old build out ⟨opening, tall, last, close, rfl, hpair, htall, hlast, rfl⟩ hout hplain
    obtain ⟨hopening, hclose⟩ := length_of_closing? hpair
    cases hout with
    | @cons _ opening' _ _ hnamed hout =>
      cases hout with
      | @cons _ tall' _ _ hnamed' hout =>
        cases hout with
        | @cons _ last' _ none hnamed'' hnone =>
          cases hnone
          have hfirst : opening'.isRun = true := by rw [hnamed.isRun, isRun_of_length rfl hopening]
          have hlast' : last'.isRun = true := by rw [hnamed''.isRun, isRun_of_length hlast hclose]
          have htall' : tall'.isTall = true := by rw [isTall, hnamed'.isOneOf, ← isTall, htall]
          obtain ⟨hruns, hslots⟩ := hplain
          have hnone : Unfractioned [opening', last'] := everywhere_cons.2
            ⟨unfractioned_of_isRun (everywhere_singleton.1 (hruns.of_mem (by simp))).1 hfirst,
              unfractioned_of_isRun (everywhere_singleton.1 (hruns.of_mem (by simp))).1 hlast'⟩
          exact .single (.enclose _ _ hfirst hlast' hnone (holdsNoSlot_of_isTall (hslots.of_mem (by simp)) htall')
            (.refl [tall']) .nil)

theorem stretches_promoteDelimiters (f : Fragment) : Stretches f.children (promoteDelimiters f).children :=
  congruence_stretches.sweepFor relates_promotionSpan maxSweeps f

/-! ### The second pass -/

/-- The repairs that are done before delimiters are stretched. -/
def rulesBeforePromotion : List RepairRule := rulesBeforeFractions ++ [.rebuildFractions]

/-- The repairs that are done after that. -/
def rulesAfterPromotion : List RepairRule := [.repairInvalidScripts, .removeUndefinedStyles, .normalizeTexts]

/-- The fragment when delimiters are to be stretched, and what passed between the repairs. -/
def beforePromotion (f : Fragment) : Fragment × RepairState :=
  rulesBeforePromotion.foldl (fun (f, state) rule => rule.apply state f) (f, f.repairState)

theorem foldl_rulesAfterPromotion (start : Fragment × RepairState) :
    (rulesAfterPromotion.foldl (fun (f, state) rule => rule.apply state f) start).1 = afterPromotion start.1 := rfl

theorem applyRules_all (f : Fragment) : f.applyRules RepairRule.all =
    afterPromotion (RepairRule.promoteDelimiters.apply (beforePromotion f).2 (beforePromotion f).1).1 := by
  rw [Fragment.applyRules, beforePromotion, show RepairRule.all =
    rulesBeforePromotion ++ .promoteDelimiters :: rulesAfterPromotion from rfl, List.foldl_append, List.foldl_cons,
    foldl_rulesAfterPromotion]

theorem applyRules_second (f : Fragment) :
    f.applyRules (RepairRule.all.filter (· != .promoteDelimiters)) = afterPromotion (beforePromotion f).1 := by
  rw [Fragment.applyRules, beforePromotion, show RepairRule.all.filter (· != .promoteDelimiters) =
    rulesBeforePromotion ++ rulesAfterPromotion from rfl, List.foldl_append, foldl_rulesAfterPromotion]

/-- If no flattened fraction was put together, a plain fragment is plain when delimiters are stretched. -/
theorem isPlain_beforePromotion (h : IsPlain f.children) (hnone : (beforePromotion f).2.fractionRebuilt = false) :
    IsPlain (beforePromotion f).1.children := by
  rw [beforePromotion, rulesBeforePromotion, List.foldl_append, List.foldl_cons, List.foldl_nil] at hnone ⊢
  have hfirst : .rebuildFractions ∉ rulesBeforeFractions ∧ .removeUndefinedStyles ∉ rulesBeforeFractions := by decide
  have hruns := steps_keepsRuns.foldl rulesBeforeFractions (fun hmem => absurd hmem hfirst.1)
    (fun hmem => absurd hmem hfirst.2) (f, f.repairState) h.1
  have hslots := steps_givesNoSlot.foldl rulesBeforeFractions (fun hmem => absurd hmem hfirst.1)
    (fun hmem => absurd hmem hfirst.2) (f, f.repairState) h.2
  generalize rulesBeforeFractions.foldl (fun (f, state) rule => rule.apply state f) (f, f.repairState) = start
    at hnone hruns hslots ⊢
  obtain ⟨g, state⟩ := start
  dsimp only at hnone ⊢
  rw [RepairRule.apply.eq_def] at hnone ⊢
  have hunchanged : rebuildFractions g = (g, false) := sweepUntilStable_of_unchanged (Bool.or_eq_false_iff.1 hnone).2
  simp only [hunchanged]
  exact ⟨hruns.1, hslots.givesNone⟩

theorem unfractioned_second (hruns : Everywhere UnfractionedRun f.children) (hslots : Everywhere (GivesNone slotNames) f.children)
    (hlost : Unfractioned (f.applyRules RepairRule.all).children) :
    Unfractioned (f.applyRules (RepairRule.all.filter (· != .promoteDelimiters))).children := by
  have hplain := isPlain_beforePromotion (f := f) ⟨hruns, hslots⟩
  rw [applyRules_all] at hlost
  rw [applyRules_second]
  generalize beforePromotion f = start at hlost hplain ⊢
  rw [RepairRule.apply.eq_def] at hlost
  dsimp only at hlost
  split at hlost
  · exact hlost
  · next hstretched =>
    simp only [Bool.or_eq_true, not_or, Bool.not_eq_true] at hstretched
    exact unfractioned_afterPromotion (stretches_promoteDelimiters start.1 (hplain hstretched.1)) hlost

/-- Where the first pass leaves no fraction, the second one leaves none, and none is in what is given back. -/
theorem hasFraction_second_pass (f : Fragment) (hruns : Everywhere UnfractionedRun f.children)
    (hslots : Everywhere (GivesNone slotNames) f.children) (hlost : (f.applyRules RepairRule.all).hasFraction = false) :
    (f.applyRules (RepairRule.all.filter (· != .promoteDelimiters))).hasFraction = false ∧ (f.repair []).hasFraction = false := by
  have hsecond := hasFraction_eq_false_iff.2 (unfractioned_second hruns hslots (hasFraction_eq_false_iff.1 hlost))
  have hall : RepairRule.all.filter (fun rule => !([] : List Text).contains rule.name) = RepairRule.all := rfl
  refine ⟨hsecond, ?_⟩
  rw [Fragment.repair, hall]
  split
  · exact hsecond
  · exact hlost

/-- Scripts without a base, with a fraction as their subscript, between round brackets. -/
def bracketedScripts : Fragment where
  text := none
  children := [plainRun "(", mathElement "sSub" [mathElement "sub" [fraction [plainRun "a"] [plainRun "b"]]], plainRun ")"]

theorem hasFraction_second_pass_bracketedScripts :
    (Everywhere UnfractionedRun bracketedScripts.children ∧ Everywhere (GivesNone slotNames) bracketedScripts.children ∧
      (bracketedScripts.applyRules RepairRule.all).hasFraction = false) ∧
      (bracketedScripts.applyRules (RepairRule.all.filter (· != .promoteDelimiters))).hasFraction = false ∧
      (bracketedScripts.repair []).hasFraction = false := by
  have hruns : Everywhere UnfractionedRun bracketedScripts.children := by decide +kernel
  have hslots : Everywhere (GivesNone slotNames) bracketedScripts.children := by decide +kernel
  have hlost : (bracketedScripts.applyRules RepairRule.all).hasFraction = false := by decide +kernel
  exact ⟨⟨hruns, hslots, hlost⟩, hasFraction_second_pass bracketedScripts hruns hslots hlost⟩

/-- Scripts whose base is made of two scripts without a subscript, one in brackets in the other, around a slot. -/
def nestedSlot : Fragment where
  text := none
  children :=
    let slot := mathElement "e" [plainRun "y"]
    let bracketed := [plainRun "(", mathElement "sSub" [mathElement "e" [slot]], plainRun ")"]
    [mathElement "sSub"
      [mathElement "sSub" [mathElement "e" (plainRun "x" :: bracketed)],
        mathElement "sub" [fraction [plainRun "a"] [plainRun "b"]]]]

/-- Where a slot may take the place of scripts, the second pass may save a fraction that the first one loses. -/
theorem exists_hasFraction_second_pass : ∃ f : Fragment, Everywhere UnfractionedRun f.children ∧ f.hasFraction = true ∧
    (f.applyRules RepairRule.all).hasFraction = false ∧
    (f.applyRules (RepairRule.all.filter (· != .promoteDelimiters))).hasFraction = true :=
  ⟨nestedSlot, by decide +kernel⟩

end EquationExport.Omml
