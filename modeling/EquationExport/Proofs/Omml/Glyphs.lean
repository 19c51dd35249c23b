import EquationExport.Omml.Repair.Rule
import EquationExport.Proofs.Omml.Bar
import EquationExport.Proofs.Omml.Base
import EquationExport.Proofs.Omml.Integrand
import EquationExport.Proofs.Omml.Reduce
import EquationExport.Proofs.Omml.Style
import EquationExport.Proofs.Xml.Legal

/-!
# Repair keeps what is read

Each repair keeps what can be read, so all of them together lose, double and displace no glyph, whichever of
them are left out and whether the repair is done a second time. The fragment has to follow the schema, and no
slot may hold properties that are read: the repair that takes boxes away would move these properties into the
construct around the box.
-/

namespace EquationExport.Omml

open Xml Xml.Node Repair

/-! ### Fragments that follow the schema -/

/-- The nodes of the fragment fit, and its content is no text. -/
structure Fragment.Follows (strict : Bool) (f : Fragment) : Prop where
  fit : Everywhere (Fit strict) f.children
  text : ("t" : Text) ∉ labels f.children

instance (strict : Bool) (f : Fragment) : Decidable (f.Follows strict) :=
  decidable_of_iff (Everywhere (Fit strict) f.children ∧ ("t" : Text) ∉ labels f.children)
    ⟨fun ⟨hfit, htext⟩ => ⟨hfit, htext⟩, fun ⟨hfit, htext⟩ => ⟨hfit, htext⟩⟩

/-- A fragment that was read and follows the schema is proper. -/
theorem allProper_of_parse? {strict : Bool} {omml : Text} {f : Fragment} (hparse : Fragment.parse? omml = some f)
    (hfollows : f.Follows strict) : AllProper strict f.children := by
  obtain ⟨⟨text, children⟩, hread, rfl⟩ := Option.map_eq_some_iff.1 hparse
  intro n hn
  refine ⟨hfollows.fit n hn, Text.hasSurrogate_eq_false_iff.2 fun c hc => ?_⟩
  have hlegal := legalTexts_of_readContent? hread n hn
  exact isSurrogate_of_isXml (isLegal_iff.1 hlegal c hc)

theorem within_of_follows {strict : Bool} {f : Fragment} (hproper : AllProper strict f.children)
    (hfollows : f.Follows strict) : Within strict rootName f.children := by
  refine ⟨hproper, fun hpr => absurd hpr (by decide), [], [], ?_⟩
  rw [accepts_other (by decide)]
  refine ⟨by simpa using hfollows.text, fun _ he => absurd he (by decide)⟩

/-! ### All repairs -/

/-- What is done before the first repair that goes by the shape of spans. -/
def reductions : List RepairRule := [.stripForeign, .unwrapBoxes]

/-- All other repairs, in their order. -/
def reshapings : List RepairRule :=
  [.rebuildIntegrals, .repairNorms, .adoptIntegrands, .placeIntegralLimits, .wrapScriptBases, .wrapBrackets,
    .wrapBraces, .rebuildFractions, .promoteDelimiters, .repairInvalidScripts, .removeUndefinedStyles, .normalizeTexts]

theorem all_eq : RepairRule.all = reductions ++ reshapings := rfl

/-- Taking away what is superfluous keeps what is read, in the strict sense. -/
theorem Kept.reduction {rule : RepairRule} (h : rule ∈ reductions) (state : RepairState) (f : Fragment) :
    Kept true rootName f.children (rule.apply state f).1.children := by
  rcases List.mem_cons.1 h with rfl | h
  · exact Kept.stripForeign f
  · obtain rfl := List.mem_singleton.1 h
    exact Kept.rebuildAll Kept.unwrapBox f.children rootName

theorem Kept.sweepUntilStable {rule : SpanRule} {shape : Shape} (hrule : Faithful rule shape) (f : Fragment) :
    Kept false rootName f.children (sweepUntilStable rule f).1.children :=
  Kept.sweepFor hrule (by decide) maxSweeps f

/-- Every other repair keeps what is read. -/
theorem Kept.reshaping {rule : RepairRule} (h : rule ∈ reshapings) (state : RepairState) (f : Fragment) :
    Kept false rootName f.children (rule.apply state f).1.children := by
  cases rule with
  | stripForeign | unwrapBoxes => exact absurd h (by decide)
  | rebuildIntegrals =>
    let promoted : Fragment := { f with children := Xml.rebuildAll (fun n => [Repair.promoteScript n]) f.children }
    have hscripts : Kept false rootName f.children promoted.children :=
      Kept.rebuildAll Kept.promoteScript f.children rootName
    exact hscripts.trans (Kept.sweepUntilStable faithful_integralSpan promoted)
  | repairNorms => exact Kept.splitNormRunsFor maxNormRounds f.children
  | adoptIntegrands => exact Kept.adoptAmong rootName f.children
  | placeIntegralLimits => exact Kept.rebuildAll Kept.placeLimits f.children rootName
  | wrapScriptBases => exact Kept.wrapBasesAmong f.children rootName
  | wrapBrackets => exact Kept.sweepUntilStable faithful_bracketSpan f
  | wrapBraces => exact Kept.sweepUntilStable faithful_braceSpan f
  | rebuildFractions => exact Kept.sweepUntilStable faithful_fractionSpan f
  | promoteDelimiters =>
    rw [RepairRule.apply]
    split
    · exact Kept.refl _
    · exact Kept.sweepUntilStable faithful_promotionSpan f
  | repairInvalidScripts =>
    exact (Kept.rebuildAll Kept.dissolveInvalid f.children rootName).trans (Kept.rebuildAll Kept.dissolveInvalid _ rootName)
  | removeUndefinedStyles => exact Kept.removeUndefinedStyles rootName
  | normalizeTexts => exact Kept.rebuildAll Kept.normalizeTextElement f.children rootName

theorem Kept.foldl {strict : Bool} {rules : List RepairRule}
    (h : ∀ rule ∈ rules, ∀ state f, Kept strict rootName f.children (rule.apply state f).1.children)
    (start : Fragment × RepairState) : Kept strict rootName start.1.children
      (rules.foldl (fun (f, state) rule => rule.apply state f) start).1.children := by
  induction rules generalizing start with
  | nil => exact Kept.refl _
  | cons rule rules ih =>
    rw [List.foldl_cons]
    exact (h rule List.mem_cons_self start.2 start.1).trans (ih (fun r hr => h r (List.mem_cons_of_mem _ hr)) _)

/-- Any choice of repairs keeps what is read. -/
theorem legible_applyRules {f : Fragment} (h : Within true rootName f.children) (p : RepairRule → Bool) :
    Text.legible (readings (f.applyRules (RepairRule.all.filter p)).children) = Text.legible (readings f.children) := by
  rw [Fragment.applyRules, all_eq, List.filter_append, List.foldl_append]
  have hreductions : ∀ rule ∈ reductions.filter p, ∀ state f, Kept true rootName f.children
      (rule.apply state f).1.children := fun rule hrule => Kept.reduction (List.mem_of_mem_filter hrule)
  have hreshapings : ∀ rule ∈ reshapings.filter p, ∀ state f, Kept false rootName f.children
      (rule.apply state f).1.children := fun rule hrule => Kept.reshaping (List.mem_of_mem_filter hrule)
  have hreduced := Kept.foldl hreductions (f, f.repairState) h
  generalize (reductions.filter p).foldl (fun (f, state) rule => rule.apply state f) (f, f.repairState) = reduced
    at hreduced ⊢
  have hwithin : Within false rootName reduced.1.children := by
    obtain ⟨front, rest, haccepts⟩ := h.accepts
    have haccepts' := hreduced.accepts front rest haccepts
    refine ⟨hreduced.proper.mono fun n hn => hn.weaken, fun hpr => absurd hpr (by decide), front, rest, ?_⟩
    rw [accepts_other (by decide)] at haccepts' ⊢
    exact ⟨haccepts'.1, by simp⟩
  exact (Kept.foldl hreshapings reduced hwithin).reading.trans hreduced.reading

/--
Repair loses, doubles and displaces no glyph: what can be read of the fragment that is written in the end is what
can be read of the fragment as it was given, whichever repairs are left out.
-/
theorem repairOmml_keeps_glyphs {omml : Text} {f : Fragment} (hparse : Fragment.parse? omml = some f)
    (hfollows : f.Follows true) (skip : List Text) :
    repairOmml omml skip = some (f.repair skip).write ∧
      Text.legible (readings (f.repair skip).children) = Text.legible (readings f.children) := by
  refine ⟨by rw [repairOmml, hparse, Option.map_some], ?_⟩
  have hwithin := within_of_follows (allProper_of_parse? hparse hfollows) hfollows
  rw [Fragment.repair]
  split
  · rw [List.filter_filter]
    exact legible_applyRules hwithin _
  · exact legible_applyRules hwithin _

/-- An integral sign with a lower limit, and a norm whose digit is glued to its bar. -/
def integralOfNorm : Text :=
  "<m:sSub><m:e><m:r><m:t>∫</m:t></m:r></m:e><m:sub><m:r><m:t>0</m:t></m:r></m:sub></m:sSub><m:r><m:t>‖x‖₂ dx</m:t></m:r>"

theorem repairOmml_keeps_integralOfNorm :
    ∃ f, Fragment.parse? integralOfNorm = some f ∧ f.Follows true ∧
      repairOmml integralOfNorm [] = some (f.repair []).write ∧
      Text.legible (readings (f.repair []).children) = Text.legible (readings f.children) := by
  have hread : (Fragment.parse? integralOfNorm).any (fun f => decide (f.Follows true)) = true := by decide +kernel
  cases hparse : Fragment.parse? integralOfNorm with
  | none =>
    rw [hparse] at hread
    cases hread
  | some f =>
    have hfollows : f.Follows true := by
      rw [hparse] at hread
      exact of_decide_eq_true hread
    exact ⟨f, rfl, hfollows, repairOmml_keeps_glyphs hparse hfollows []⟩

/-- A delimiter construct with its opening bracket in a box among its properties. -/
def boxedBracket : Text :=
  "<m:d><m:dPr><m:box><m:e><m:begChr m:val=\"[\"/></m:e></m:box></m:dPr><m:e><m:r><m:t>x</m:t></m:r></m:e></m:d>"

/-- Without the condition on slots repair changes what is read: it takes the box away, and the bracket counts. -/
theorem repair_misreads_boxedBracket :
    ∃ f, Fragment.parse? boxedBracket = some f ∧ f.Follows false ∧
      Text.legible (readings f.children) = "(x)" ∧ Text.legible (readings (f.repair []).children) = "[x)" := by
  have hread : (Fragment.parse? boxedBracket).any (fun f => decide (f.Follows false ∧
      Text.legible (readings f.children) = "(x)" ∧ Text.legible (readings (f.repair []).children) = "[x)")) = true := by
    decide +kernel
  cases hparse : Fragment.parse? boxedBracket with
  | none =>
    rw [hparse] at hread
    cases hread
  | some f =>
    rw [hparse] at hread
    exact ⟨f, rfl, of_decide_eq_true hread⟩

end EquationExport.Omml
