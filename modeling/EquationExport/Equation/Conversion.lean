import EquationExport.Mathml.Clean
import EquationExport.Omml.Fragment
import EquationExport.Text.Digit

/-!
# Converting MathML

MathML is given to the converter as it is. If it holds a fraction and what comes back does not, it is given a
second time without its fence operators, provided that this makes a difference: some converters lose a
fraction that stands between fences. An answer that is blank, or that lost the fraction, does not count.
-/

namespace EquationExport

/-!
### Converters

Two conversions are done by others: LaTeX to MathML, and MathML to equation markup. A converter is a function
that may give nothing. What is asked of the converters, and in which order, can be observed, so a
computation that uses them keeps the list of its calls beside its value.
-/

/-- The converters that equations are made with. -/
structure Converters where
  /-- MathML to equation markup. -/
  omml : Text → Option Text
  /-- LaTeX to MathML, in display mode or not. -/
  mathml : Text → Bool → Option Text

/-- A question to a converter. -/
inductive Call where
  | omml (mathml : Text)
  | mathml (latex : Text) (display : Bool)
  deriving DecidableEq

/-- A value with the calls that were made for it, in order. -/
structure Traced (α : Type) where
  value : α
  calls : List Call

namespace Traced

instance : Monad Traced where
  pure a := ⟨a, []⟩
  bind t f := ⟨(f t.value).value, t.calls ++ (f t.value).calls⟩

instance [Inhabited α] : Inhabited (Traced α) := ⟨⟨default, []⟩⟩

@[simp] theorem value_pure (a : α) : (pure a : Traced α).value = a := rfl

@[simp] theorem calls_pure (a : α) : (pure a : Traced α).calls = [] := rfl

@[simp] theorem value_bind (t : Traced α) (f : α → Traced β) : (t >>= f).value = (f t.value).value := rfl

@[simp] theorem calls_bind (t : Traced α) (f : α → Traced β) :
    (t >>= f).calls = t.calls ++ (f t.value).calls := rfl

end Traced

/-- Asks for equation markup. -/
def Converters.askOmml (c : Converters) (mathml : Text) : Traced (Option Text) :=
  ⟨c.omml mathml, [.omml mathml]⟩

/-- Asks for MathML. -/
def Converters.askMathml (c : Converters) (latex : Text) (display : Bool) : Traced (Option Text) :=
  ⟨c.mathml latex display, [.mathml latex display]⟩

/-! ### Attempts -/

/-- No attempt to convert gave anything usable. -/
structure ConversionFailure where
  attempts : Nat
  deriving DecidableEq

/-- The wording of a failure. -/
def ConversionFailure.message (f : ConversionFailure) : Text :=
  "MathML could not be converted after " ++ Text.ofNat f.attempts ++ " attempt(s)"

/-- What the converter is given, in order. -/
def conversionAttempts (mathml : Text) : List Text :=
  let stripped := Mathml.stripFenceOperators mathml
  if Mathml.hasFraction mathml && stripped != mathml then [mathml, stripped] else [mathml]

/-- An answer that counts, without the white space around it. -/
def usableOmml (needsFraction : Bool) (answer : Option Text) : Option Text :=
  match answer with
  | none => none
  | some omml =>
    let omml := omml.trim
    if omml.isEmpty || (needsFraction && !Omml.hasFractionMarker omml) then none else some omml

/-- The first answer that counts to some questions; later ones are not asked. -/
def firstUsable (c : Converters) (needsFraction : Bool) : List Text → Traced (Option Text)
  | [] => pure none
  | mathml :: rest => do
    match usableOmml needsFraction (← c.askOmml mathml) with
    | some omml => pure (some omml)
    | none => firstUsable c needsFraction rest

/-- Converts MathML to equation markup. -/
def convertMathml (c : Converters) (mathml : Text) : Traced (Except ConversionFailure Text) := do
  let attempts := conversionAttempts mathml
  match ← firstUsable c (Mathml.hasFraction mathml) attempts with
  | some omml => pure (.ok omml)
  | none => pure (.error ⟨attempts.length⟩)

end EquationExport
