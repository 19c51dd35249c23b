import EquationExport.Payload
import EquationExport.Text.Digit

/-!
# Placeholders

While a document is being written, each equation stands in it as a token: a run of text that is numbered
in the order in which the equations were met. The registry hands out the tokens and remembers what is to
be put in their place.
-/

namespace EquationExport

/-- A token and the equation markup that is put in place of the run that holds it. -/
structure Replacement where
  token : Text
  omml : Text
  /-- The equation is set off on a line of its own. -/
  display : Bool
  deriving DecidableEq

/-- The name of the field for display mode: the short name, unless only the long one is there. -/
def Replacement.displayField (fields : List (Text × Payload)) : Text :=
  if (Payload.field? fields "displayMode").isSome then "displayMode" else "display_mode"

/-- Reads a replacement off a payload. -/
def Replacement.ofPayload (p : Payload) : Except (List Problem) Replacement :=
  p.asRecord fun fields =>
    (Payload.both (Payload.required Payload.readText fields "token")
      (Payload.both (Payload.required Payload.readText fields "omml")
        (Payload.optional Payload.readTruth fields (displayField fields) false))).map
    fun (token, omml, display) => ⟨token, omml, display⟩

/-- The tokens handed out so far. -/
structure Registry where
  /-- The number of the next token. -/
  nextId : Int
  /-- What was registered, in order. -/
  replacements : List Replacement

namespace Registry

/-- Nothing registered; the first token has the number 1. -/
def empty : Registry := ⟨1, []⟩

/-- The token with a given number, which is written six places wide or wider. -/
def token (n : Int) : Text := "__MATH_" ++ Text.padded 6 n ++ "__"

/-- Registers the markup of an equation under the next token. -/
def register (r : Registry) (omml : Text) (display : Bool) : Text × Registry :=
  (token r.nextId, ⟨r.nextId + 1, r.replacements ++ [⟨token r.nextId, omml, display⟩]⟩)

/-- Registers markup from outside. If it is refused, its number is used up all the same. -/
def submit (r : Registry) (omml display : Payload) : Except (List Problem) Text × Registry :=
  let record := Payload.record
    [("token", .text (token r.nextId)), ("omml", omml), ("display_mode", display)]
  match Replacement.ofPayload record with
  | .ok item => (.ok item.token, (r.register item.omml item.display).2)
  | .error problems => (.error problems, { r with nextId := r.nextId + 1 })

end Registry

end EquationExport
