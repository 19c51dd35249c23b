import EquationExport.Text.Case
import EquationExport.Text.Quoted

/-!
# Log levels

How much is logged is set by name. An unknown name is refused and leaves the level as it was. The first
level that is set also attaches the one handler that writes messages.
-/

namespace EquationExport

/-- A name that stands for no level. -/
structure UnknownLevel where
  name : Text
  deriving DecidableEq

/-- The wording of the refusal. -/
def UnknownLevel.message (e : UnknownLevel) : Text := "Unknown level: " ++ e.name.quoted

/-- The levels by name. -/
def logLevels : List (Text × Nat) := [
  ("CRITICAL", 50), ("FATAL", 50), ("ERROR", 40), ("WARNING", 30), ("WARN", 30), ("INFO", 20), ("DEBUG", 10),
  ("NOTSET", 0)]

/-- The level with the given name, in any case. -/
def logLevel (name : Text) : Except UnknownLevel Nat :=
  match logLevels.find? (·.1 == name.upper) with
  | some (_, level) => .ok level
  | none => .error ⟨name.upper⟩

/-- A logger: from which level on messages are kept, and how many handlers write them. -/
structure Logger where
  level : Nat
  handlers : Nat

namespace Logger

/-- A logger on which nothing has been set. -/
def fresh : Logger := ⟨0, 0⟩

/-- Sets the level by name, or to the default if there is no name. -/
def setLevel (logger : Logger) (name : Option Text) (default : Text) : Except UnknownLevel Logger := do
  let level ← logLevel (match name with
    | some (c :: s) => c :: s
    | _ => default)
  return ⟨level, max logger.handlers 1⟩

end Logger

end EquationExport
