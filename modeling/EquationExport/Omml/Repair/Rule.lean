import EquationExport.Omml.Repair.Delimiter
import EquationExport.Omml.Repair.Norm
import EquationExport.Omml.Repair.Reduce
import EquationExport.Omml.Repair.Style

/-!
# The repair of a fragment

The repairs have names and an order. Two facts pass between them: whether the fragment had a fraction at its
top before any repair, and whether a flattened fraction was put together. If a fragment loses all its
fractions under repair, the repair is done again without stretching delimiters around tall constructs.
-/

namespace EquationExport.Omml

open Repair

/-- The repairs. -/
inductive RepairRule where
  | stripForeign
  | unwrapBoxes
  | rebuildIntegrals
  | repairNorms
  | adoptIntegrands
  | placeIntegralLimits
  | wrapScriptBases
  | wrapBrackets
  | wrapBraces
  | rebuildFractions
  | promoteDelimiters
  | repairInvalidScripts
  | removeUndefinedStyles
  | normalizeTexts
  deriving DecidableEq

/-- What passes between the repairs of one fragment. -/
structure RepairState where
  /-- The fragment had a fraction at its top before any repair. -/
  topLevelFraction : Bool
  /-- A flattened fraction was put together. -/
  fractionRebuilt : Bool
  deriving DecidableEq

namespace RepairRule

/-- The repairs in the order in which they are done. -/
def all : List RepairRule :=
  [stripForeign, unwrapBoxes, rebuildIntegrals, repairNorms, adoptIntegrands, placeIntegralLimits,
    wrapScriptBases, wrapBrackets, wrapBraces, rebuildFractions, promoteDelimiters, repairInvalidScripts,
    removeUndefinedStyles, normalizeTexts]

/-- The name by which a repair is left out. -/
def name : RepairRule → Text
  | stripForeign => "strip_foreign_elements"
  | unwrapBoxes => "unwrap_redundant_boxes"
  | rebuildIntegrals => "rebuild_integral_runs"
  | repairNorms => "repair_norm_subscripts"
  | adoptIntegrands => "adopt_empty_integrands"
  | placeIntegralLimits => "place_integral_limits"
  | wrapScriptBases => "wrap_script_base_delimiters"
  | wrapBrackets => "wrap_brackets_around_tall"
  | wrapBraces => "wrap_brace_before_matrix"
  | rebuildFractions => "rebuild_bracketed_fractions"
  | promoteDelimiters => "promote_delimiters"
  | repairInvalidScripts => "repair_invalid_scripts"
  | removeUndefinedStyles => "remove_undefined_styles"
  | normalizeTexts => "normalize_text_nodes"

/--
Does a repair. Delimiters are not stretched around tall constructs if the fragment had a fraction at its
top or if one was put together.
-/
def apply (rule : RepairRule) (state : RepairState) (f : Fragment) : Fragment × RepairState :=
  match rule with
  | stripForeign => (Repair.stripForeign f, state)
  | unwrapBoxes => (Repair.unwrapBoxes f, state)
  | rebuildIntegrals => (Repair.rebuildIntegrals f, state)
  | repairNorms => (Repair.repairNorms f, state)
  | adoptIntegrands => (Repair.adoptIntegrands f, state)
  | placeIntegralLimits => (Repair.placeIntegralLimits f, state)
  | wrapScriptBases => (Repair.wrapScriptBases f, state)
  | wrapBrackets => (Repair.wrapBrackets f, state)
  | wrapBraces => (Repair.wrapBraces f, state)
  | rebuildFractions =>
    let (f, rebuilt) := Repair.rebuildFractions f
    (f, { state with fractionRebuilt := state.fractionRebuilt || rebuilt })
  | promoteDelimiters =>
    if state.fractionRebuilt || state.topLevelFraction then (f, state)
    else (Repair.promoteDelimiters f, state)
  | repairInvalidScripts => (Repair.repairInvalidScripts f, state)
  | removeUndefinedStyles => (Repair.removeUndefinedStyles f, state)
  | normalizeTexts => (Repair.normalizeTexts f, state)

end RepairRule

namespace Fragment

/-- What is known of a fragment before any repair. -/
def repairState (f : Fragment) : RepairState := ⟨f.hasTopLevelFraction, false⟩

/-- Does repairs one after the other. -/
def applyRules (rules : List RepairRule) (f : Fragment) : Fragment :=
  (rules.foldl (fun (f, state) rule => rule.apply state f) (f, f.repairState)).1

/-- The fragment after all repairs but those named. -/
def repair (f : Fragment) (skip : List Text) : Fragment :=
  let rules := RepairRule.all.filter fun rule => !skip.contains rule.name
  let repaired := f.applyRules rules
  if f.hasFraction && !repaired.hasFraction && rules.contains .promoteDelimiters then
    f.applyRules (rules.filter (· != .promoteDelimiters))
  else repaired

/-- The fragment after each of some repairs, with the repair, and what passed between them at the end. -/
def traceRules : List RepairRule → RepairState → Fragment → List (RepairRule × Fragment) × RepairState
  | [], state, _ => ([], state)
  | rule :: rules, state, f =>
    let (f, state) := rule.apply state f
    let (steps, state) := traceRules rules state f
    ((rule, f) :: steps, state)

/-- The fragment after each repair, in order. -/
def trace (f : Fragment) : List (RepairRule × Fragment) × RepairState :=
  traceRules RepairRule.all f.repairState f

end Fragment

/-- Repairs a fragment as it is written; nothing if it is not well-formed. -/
def repairOmml (omml : Text) (skip : List Text) : Option Text :=
  (Fragment.parse? omml).map fun f => (f.repair skip).write

end EquationExport.Omml
