import EquationExport.Text.Class
import EquationExport.Text.Search

/-!
# Payloads

A payload is a value that comes from outside with no promise about its shape. Reading a record off a
payload reports every field that is missing or of the wrong kind, in the order in which the record
declares its fields. Texts are taken strictly. Truth values are taken generously: numbers and words that
mean yes or no will do.
-/

namespace EquationExport

/-- A value from outside. -/
inductive Payload where
  | null
  | boolean (b : Bool)
  | integer (n : Int)
  /-- A number that is no integer. -/
  | fraction
  | text (t : Text)
  | list
  | record (fields : List (Text × Payload))
  deriving Inhabited

/-- What is wrong with a field, or with the payload as a whole. -/
inductive ProblemKind where
  /-- A required field is not there. -/
  | missing
  /-- Not a text. -/
  | notText
  /-- A text or integer that means neither yes nor no. -/
  | unreadableTruth
  /-- Nothing that could be a truth value. -/
  | notTruth
  /-- Not a record. -/
  | notRecord
  deriving DecidableEq

/-- A problem and the field it concerns; the empty name stands for the whole payload. -/
structure Problem where
  field : Text
  kind : ProblemKind

namespace Payload

/-- The value of a field, if the payload is a record that has it. -/
def field? (fields : List (Text × Payload)) (name : Text) : Option Payload :=
  (fields.find? (·.1 == name)).map (·.2)

/-- A text. -/
def readText : Payload → Except ProblemKind Text
  | .text t => .ok t
  | _ => .error .notText

/-- A text, or nothing. -/
def readOptionalText : Payload → Except ProblemKind (Option Text)
  | .null => .ok none
  | p => p.readText.map some

/-- The words for no, in small letters. -/
def noWords : List Text := ["0", "off", "f", "false", "n", "no"]

/-- The words for yes, in small letters. -/
def yesWords : List Text := ["1", "on", "t", "true", "y", "yes"]

/-- A truth value: itself, the numbers 0 and 1, or a word for yes or no in any case. -/
def readTruth : Payload → Except ProblemKind Bool
  | .boolean b => .ok b
  | .integer n => if n = 0 then .ok false else if n = 1 then .ok true else .error .unreadableTruth
  | .text t =>
    let word := t.map (·.asciiLower)
    if word ∈ noWords then .ok false else if word ∈ yesWords then .ok true else .error .unreadableTruth
  | _ => .error .notTruth

/-- A field that has to be there. -/
def required (read : Payload → Except ProblemKind α) (fields : List (Text × Payload)) (name : Text) :
    Except (List Problem) α :=
  match field? fields name with
  | none => .error [⟨name, .missing⟩]
  | some p => (read p).mapError fun kind => [⟨name, kind⟩]

/-- A field that may be left out; then it has the given value. -/
def optional (read : Payload → Except ProblemKind α) (fields : List (Text × Payload)) (name : Text)
    (absent : α) : Except (List Problem) α :=
  match field? fields name with
  | none => .ok absent
  | some p => (read p).mapError fun kind => [⟨name, kind⟩]

/-- Two readings at once; if both fail, the problems of both are reported. -/
def both (a : Except (List Problem) α) (b : Except (List Problem) β) : Except (List Problem) (α × β) :=
  match a, b with
  | .ok x, .ok y => .ok (x, y)
  | .error e, .ok _ => .error e
  | .ok _, .error e => .error e
  | .error e, .error e' => .error (e ++ e')

/-- Reads a record with `read`; anything else is refused. -/
def asRecord (p : Payload) (read : List (Text × Payload) → Except (List Problem) α) :
    Except (List Problem) α :=
  match p with
  | .record fields => read fields
  | _ => .error [⟨[], .notRecord⟩]

end Payload

end EquationExport
