import EquationExport.Equation.Conversion
import EquationExport.Latex.Normal
import EquationExport.Omml.Repair.Rule
import EquationExport.Payload

/-!
# Equations and their sources

An equation on a page has up to two sources: the MathML embedded beside its rendering and the LaTeX it was
written in, from which MathML can be made anew. The embedded MathML is tried first, except for matrices,
whose stretchy delimiters only the LaTeX keeps. The first source that can be converted and repaired gives the
equation's markup.
-/

namespace EquationExport

/-- The sources of an equation. -/
structure MathElement where
  latex : Option Text
  mathml : Option Text
  /-- The equation is set off on a line of its own. -/
  display : Bool
  deriving DecidableEq

/-- Reads the sources of an equation off a payload. -/
def MathElement.ofPayload (p : Payload) : Except (List Problem) MathElement :=
  p.asRecord fun fields =>
    (Payload.both (Payload.optional Payload.readOptionalText fields "latex" none)
      (Payload.both (Payload.optional Payload.readOptionalText fields "mathml" none)
        (Payload.optional Payload.readTruth fields "display_mode" false))).map
    fun (latex, mathml, display) => ⟨latex, mathml, display⟩

/-- A text, unless it is empty. -/
def nonempty? (t : Option Text) : Option Text :=
  match t with
  | some (c :: s) => some (c :: s)
  | _ => none

/-! ### MathML made anew -/

/-- A `math` element at the front, in any case, and what follows it. -/
def mathBlock? (s : Text) : Option (Text × Text) :=
  match s.dropPrefixCaseless? "<math" with
  | some (c :: r) =>
    if c.isSpace || c == '>' then
      match Text.breakAt? (·.dropPrefixCaseless? "</math>") r with
      | some (_, rest) => some (s.take (s.length - rest.length), rest)
      | none => none
    else none
  | _ => none

/-- MathML made from the source of a formula, in normal form; nothing if that fails. -/
def regenerateMathml (c : Converters) (latex : Text) (display : Bool) : Traced (Option Text) := do
  let rendered ← c.askMathml (Latex.normalize latex) display
  pure ((Text.breakAt? mathBlock? (rendered.getD [])).map fun (_, block, _) => block)

/-! ### Candidates -/

/-- Where MathML comes from. -/
inductive Source where
  | embedded
  | regenerated
  deriving DecidableEq

namespace Source

/-- The name of a source. -/
def name : Source → Text
  | embedded => "embedded"
  | regenerated => "regenerated"

end Source

namespace MathElement

/-- The equation is a matrix, going by its LaTeX. -/
def isMatrix (e : MathElement) : Bool := Latex.hasMatrixEnvironment (e.latex.getD [])

/-- The sources in the order in which they are tried. -/
def sources (e : MathElement) : List Source :=
  if e.isMatrix then [.regenerated, .embedded] else [.embedded, .regenerated]

/-- The MathML that a source gives. -/
def candidate (c : Converters) (e : MathElement) : Source → Traced (Option Text)
  | .embedded => pure (nonempty? e.mathml)
  | .regenerated => match nonempty? e.latex with
    | some latex => do pure (nonempty? (← regenerateMathml c latex e.display))
    | none => pure none

/-- The MathML of each of some sources that give any. -/
def candidatesFrom (c : Converters) (e : MathElement) : List Source → Traced (List (Source × Text))
  | [] => pure []
  | source :: rest => do
    let mathml ← e.candidate c source
    let later ← candidatesFrom c e rest
    pure (match mathml with
      | some mathml => (source, mathml) :: later
      | none => later)

/-- All candidates, in the order in which they are tried. -/
def candidates (c : Converters) (e : MathElement) : Traced (List (Source × Text)) :=
  candidatesFrom c e e.sources

/-! ### The markup of an equation -/

/-- The markup that MathML gives: cleaned, converted and repaired. -/
def ommlOf (c : Converters) (mathml : Text) : Traced (Option Text) := do
  match ← convertMathml c (Mathml.clean mathml) with
  | .ok raw => pure (Omml.repairOmml raw [])
  | .error _ => pure none

/-- The markup that the first of some sources gives; later ones are not looked at. -/
def buildFrom (c : Converters) (e : MathElement) : List Source → Traced (Option Text)
  | [] => pure none
  | source :: rest => do
    match ← e.candidate c source with
    | none => buildFrom c e rest
    | some mathml => match ← ommlOf c mathml with
      | some omml => pure (some omml)
      | none => buildFrom c e rest

/-- The markup of an equation, from the first source that gives any. -/
def build (c : Converters) (e : MathElement) : Traced (Option Text) := buildFrom c e e.sources

end MathElement

/-- The markup of a formula given as LaTeX, with or without math delimiters around it. -/
def ommlOfLatex (c : Converters) (latex : Text) (display : Bool) : Traced (Option Text) :=
  match nonempty? (some (Latex.stripMathDelimiters latex)) with
  | some latex => MathElement.build c ⟨some latex, none, display⟩
  | none => pure none

end EquationExport
