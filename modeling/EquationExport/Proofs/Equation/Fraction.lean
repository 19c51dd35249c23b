import EquationExport.Equation.Source
import EquationExport.Proofs.Omml.Fraction
import EquationExport.Proofs.Omml.Retain

/-!
# Fractions in the markup of an equation

The markup of an equation is the repaired answer of the converter to the first candidate that can be used. If
that answer holds no fraction, the markup holds none either, whatever the converters are, unless the repairs
come upon the objects of a flattened fraction. A product of an integral and a sum in parentheses has that
shape, so it does become a fraction.
-/

namespace EquationExport.MathElement

open Omml

/-! ### The candidate that is used -/

/-- The MathML of the first source that can be used, and the answer of the converter to it. -/
def settledFrom (c : Converters) (e : MathElement) : List Source → Option (Text × Text)
  | [] => none
  | source :: rest => match (e.candidate c source).value with
    | none => settledFrom c e rest
    | some mathml => match (convertMathml c (Mathml.clean mathml)).value with
      | .error _ => settledFrom c e rest
      | .ok raw => if (Fragment.parse? raw).isSome then some (mathml, raw) else settledFrom c e rest

/-- The MathML that the markup of an equation is made from, and the answer of the converter to it. -/
def settled (c : Converters) (e : MathElement) : Option (Text × Text) := settledFrom c e e.sources

variable {c : Converters} {e : MathElement} {mathml raw : Text} {f : Fragment}

theorem value_buildFrom (c : Converters) (e : MathElement) (sources : List Source) :
    (buildFrom c e sources).value = (settledFrom c e sources).bind fun used => repairOmml used.2 [] := by
  induction sources with
  | nil => rfl
  | cons source rest ih =>
    simp only [buildFrom, settledFrom, Traced.value_bind]
    cases (e.candidate c source).value with
    | none => exact ih
    | some mathml =>
      simp only [ommlOf, Traced.value_bind]
      cases (convertMathml c (Mathml.clean mathml)).value with
      | error failure => exact ih
      | ok raw =>
        cases hparse : Fragment.parse? raw with
        | none => simpa [repairOmml, hparse] using ih
        | some f => simp [repairOmml, hparse]

/-- The markup of an equation is the repaired answer to the candidate that is used. -/
theorem value_build (c : Converters) (e : MathElement) :
    (e.build c).value = (e.settled c).bind fun used => repairOmml used.2 [] :=
  value_buildFrom c e e.sources

/-! ### Fractions -/

/--
The markup of an equation holds no fraction if the answer of the converter holds none, unless the objects of
a flattened fraction stand in a row when it is the turn of the repair that puts one together.
-/
theorem build_hasFraction_eq_false (hsettled : e.settled c = some (mathml, raw)) (hparse : Fragment.parse? raw = some f)
    (hnone : f.hasFraction = false) (hflat : ¬ f.beforeFractions.HoldsFlattened) :
    ∃ g : Fragment, (e.build c).value = some g.write ∧ g.hasFraction = false := by
  refine ⟨f.repair [], ?_, f.hasFraction_repair_of_not_holds hnone hflat⟩
  rw [value_build, hsettled, Option.bind_some, repairOmml, hparse, Option.map_some]

/-- Converters that answer every question for equation markup alike, and none for MathML. -/
def answering (omml : Text) : Converters := ⟨fun _ => some omml, fun _ _ => none⟩

/-- An integral in parentheses, with its integrand behind it. -/
def integralAnswer : Text :=
  "<m:r><m:t>(</m:t></m:r><m:nary/><m:r><m:t>x</m:t></m:r><m:r><m:t>)</m:t></m:r>"

theorem build_integral :
    ∃ g : Fragment, (build (answering integralAnswer) ⟨none, some "<math/>", false⟩).value = some g.write ∧
      g.hasFraction = false := by
  have hintegral : (settled (answering integralAnswer) ⟨none, some "<math/>", false⟩).any (fun used =>
      (Fragment.parse? used.2).any fun f =>
        !f.hasFraction && !(Repair.rebuildFractions f.beforeFractions).2) = true := by decide +kernel
  obtain ⟨⟨mathml, raw⟩, hsettled, hraw⟩ := (Option.any_eq_true _ _).1 hintegral
  obtain ⟨f, hparse, hf⟩ := (Option.any_eq_true _ _).1 hraw
  obtain ⟨hnone, hflat⟩ := Bool.and_eq_true_iff.1 hf
  refine build_hasFraction_eq_false hsettled hparse (by simpa using hnone) ?_
  rw [← Fragment.rebuildFractions_snd_iff]
  simpa using hflat

/-- A product of an integral and a sum in parentheses. -/
def productAnswer : Text :=
  "<m:r><m:t>(</m:t></m:r><m:r><m:t>∫</m:t></m:r><m:r><m:t>f</m:t></m:r><m:r><m:t>x</m:t></m:r><m:nary><m:naryPr>" ++
    "<m:chr m:val=\"∑\"/></m:naryPr><m:sub/><m:sup/><m:e><m:r><m:t>a</m:t></m:r></m:e></m:nary>" ++
    "<m:r><m:t>)</m:t></m:r>"

/-- MathML for that product. -/
def productMathml : Text :=
  "<math><mo>(</mo><mo>∫</mo><mi>f</mi><mi>x</mi><mo>∑</mo><mi>a</mi><mo>)</mo></math>"

/-- The product becomes a fraction, though neither the MathML nor the answer of the converter holds one. -/
theorem build_invents_fraction :
    ¬ ∀ (c : Converters) (e : MathElement) (mathml raw omml : Text) (f g : Fragment),
      e.settled c = some (mathml, raw) → Mathml.hasFraction mathml = false → Fragment.parse? raw = some f →
      f.hasFraction = false → (e.build c).value = some omml → Fragment.parse? omml = some g →
      g.hasFraction = false := by
  intro hnever
  have hproduct : (settled (answering productAnswer) ⟨none, some productMathml, false⟩).any (fun used =>
      !Mathml.hasFraction used.1 && (Fragment.parse? used.2).any (!·.hasFraction) &&
        (build (answering productAnswer) ⟨none, some productMathml, false⟩).value.any fun omml =>
          (Fragment.parse? omml).any (·.hasFraction)) = true := by decide +kernel
  obtain ⟨⟨mathml, raw⟩, hsettled, hproduct⟩ := (Option.any_eq_true _ _).1 hproduct
  obtain ⟨hanswer, hout⟩ := Bool.and_eq_true_iff.1 hproduct
  obtain ⟨hmathml, hraw⟩ := Bool.and_eq_true_iff.1 hanswer
  obtain ⟨f, hf, hnone⟩ := (Option.any_eq_true _ _).1 hraw
  obtain ⟨omml, homml, hout⟩ := (Option.any_eq_true _ _).1 hout
  obtain ⟨g, hg, hfraction⟩ := (Option.any_eq_true _ _).1 hout
  have hnot := hnever _ _ mathml raw omml f g hsettled (by simpa using hmathml) hf (by simpa using hnone) homml hg
  simp [hnot] at hfraction

end EquationExport.MathElement

/-!
### Fractions that are not lost

The answer of the converter to MathML with a fraction counts only if a fraction can be seen in it. Whether the
markup that is made from the answer still holds one depends on where it stands: a fraction that stands firm is
kept, and one that stands in scripts without a base goes with them.
-/

namespace EquationExport.MathElement

open Omml

variable {c : Converters} {e : MathElement} {mathml raw : Text} {f : Fragment}

/-- An answer to a question that asks for a fraction shows one. -/
theorem hasFractionMarker_of_firstUsable {needsFraction : Bool} {questions : List Text} {omml : Text}
    (h : (firstUsable c needsFraction questions).value = some omml) (hneeds : needsFraction = true) :
    hasFractionMarker omml = true := by
  induction questions with
  | nil => cases h
  | cons question questions ih =>
    rw [firstUsable, Traced.value_bind] at h
    cases husable : usableOmml needsFraction (c.askOmml question).value with
    | none =>
      rw [husable] at h
      exact ih h
    | some answer =>
      rw [husable] at h
      obtain rfl : answer = omml := Option.some.inj h
      unfold usableOmml at husable
      split at husable
      · cases husable
      · dsimp only at husable
        split at husable
        · cases husable
        · next hmarker =>
          obtain rfl := Option.some.inj husable
          rw [Bool.not_eq_true, Bool.or_eq_false_iff, hneeds, Bool.true_and, Bool.not_eq_false'] at hmarker
          exact hmarker.2

theorem hasFractionMarker_of_convertMathml (h : (convertMathml c mathml).value = .ok raw)
    (hfraction : Mathml.hasFraction mathml = true) : hasFractionMarker raw = true := by
  rw [convertMathml, Traced.value_bind] at h
  split at h
  · next omml homml =>
    obtain rfl : omml = raw := Except.ok.inj h
    exact hasFractionMarker_of_firstUsable homml hfraction
  · cases h

theorem convertMathml_of_settledFrom {sources : List Source} (h : settledFrom c e sources = some (mathml, raw)) :
    (convertMathml c (Mathml.clean mathml)).value = .ok raw := by
  induction sources with
  | nil => cases h
  | cons source sources ih =>
    rw [settledFrom] at h
    split at h
    · exact ih h
    · next used _ =>
      split at h
      · exact ih h
      · next answer hanswer =>
        split at h
        · obtain ⟨rfl, rfl⟩ := Prod.mk.inj (Option.some.inj h)
          exact hanswer
        · exact ih h

/--
The answer of the converter to MathML with a fraction shows a fraction, and if it holds one that stands firm, the
markup of the equation holds one.
-/
theorem build_retains_fraction (hsettled : e.settled c = some (mathml, raw)) (hparse : Fragment.parse? raw = some f)
    (hfirm : f.holdsFirm = true) :
    (Mathml.hasFraction (Mathml.clean mathml) = true → hasFractionMarker raw = true) ∧
      ∃ g : Fragment, (e.build c).value = some g.write ∧ g.hasFraction = true := by
  refine ⟨hasFractionMarker_of_convertMathml (convertMathml_of_settledFrom hsettled), f.repair [], ?_,
    f.hasFraction_repair_of_holdsFirm hfirm []⟩
  rw [value_build, hsettled, Option.bind_some, repairOmml, hparse, Option.map_some]

/-- A power in parentheses, whose exponent is a fraction in a box. -/
def halfPower : Text :=
  "<m:r><m:t>(</m:t></m:r><m:sSup><m:e><m:r><m:t>x</m:t></m:r></m:e><m:sup><m:box><m:e><m:f><m:num><m:r><m:t>1</m:t></m:r>" ++
    "</m:num><m:den><m:r><m:t>2</m:t></m:r></m:den></m:f></m:e></m:box></m:sup></m:sSup><m:r><m:t>)</m:t></m:r>"

/-- MathML for that power. -/
def halfPowerMathml : Text :=
  "<math><mo>(</mo><msup><mi>x</mi><mfrac><mn>1</mn><mn>2</mn></mfrac></msup><mo>)</mo></math>"

theorem build_retains_halfPower :
    ∃ (mathml raw : Text) (f : Fragment),
      settled (answering halfPower) ⟨none, some halfPowerMathml, false⟩ = some (mathml, raw) ∧
      Fragment.parse? raw = some f ∧ f.holdsFirm = true ∧
      (Mathml.hasFraction (Mathml.clean mathml) = true → hasFractionMarker raw = true) ∧
      ∃ g : Fragment, (build (answering halfPower) ⟨none, some halfPowerMathml, false⟩).value = some g.write ∧
        g.hasFraction = true := by
  have hpower : (settled (answering halfPower) ⟨none, some halfPowerMathml, false⟩).any (fun used =>
      (Fragment.parse? used.2).any (·.holdsFirm)) = true := by decide +kernel
  obtain ⟨⟨mathml, raw⟩, hsettled, hraw⟩ := (Option.any_eq_true _ _).1 hpower
  obtain ⟨f, hparse, hfirm⟩ := (Option.any_eq_true _ _).1 hraw
  exact ⟨mathml, raw, f, hsettled, hparse, hfirm, build_retains_fraction hsettled hparse hfirm⟩

/-- A power without a base, whose exponent is a fraction. -/
def barePower : Text :=
  "<m:r><m:t>x</m:t></m:r><m:sSup><m:sup><m:f><m:num><m:r><m:t>1</m:t></m:r></m:num><m:den><m:r><m:t>2</m:t></m:r>" ++
    "</m:den></m:f></m:sup></m:sSup>"

/-- MathML for that power. -/
def barePowerMathml : Text :=
  "<math><mi>x</mi><msup><mrow></mrow><mfrac><mn>1</mn><mn>2</mn></mfrac></msup></math>"

/-- The power goes, and with it the only fraction. -/
theorem build_loses_fraction :
    ¬ ∀ (c : Converters) (e : MathElement) (mathml raw omml : Text),
      e.settled c = some (mathml, raw) → Mathml.hasFraction (Mathml.clean mathml) = true →
      (e.build c).value = some omml → ∃ g, Fragment.parse? omml = some g ∧ g.hasFraction = true := by
  intro hnever
  have hpower : (settled (answering barePower) ⟨none, some barePowerMathml, false⟩).any (fun used =>
      Mathml.hasFraction (Mathml.clean used.1) &&
        (build (answering barePower) ⟨none, some barePowerMathml, false⟩).value.any fun omml =>
          (Fragment.parse? omml).all (!·.hasFraction)) = true := by decide +kernel
  obtain ⟨⟨mathml, raw⟩, hsettled, hpower⟩ := (Option.any_eq_true _ _).1 hpower
  obtain ⟨hfraction, hout⟩ := Bool.and_eq_true_iff.1 hpower
  obtain ⟨omml, homml, hnone⟩ := (Option.any_eq_true _ _).1 hout
  obtain ⟨g, hg, hkept⟩ := hnever _ _ mathml raw omml hsettled hfraction homml
  simp [hg, hkept] at hnone

end EquationExport.MathElement
