import EquationExport.Omml.Construct
import EquationExport.Text.Digit

/-!
# Norms with digits

The double bar of a norm with digits glued to it, as in `‖x‖2`, carries them as a subscript; of two or more
digits the first is a subscript and the others are a superscript. One run is repaired at a time, the first
in document order, sixty-four times at most.
-/

namespace EquationExport.Omml.Repair

open Xml

/-- The bar of a norm. -/
def normBar : Text := "‖"

/-- A digit of ASCII or a subscript digit. -/
def isScriptDigit (c : CodePoint) : Bool := c.isAsciiDigit || c.inRange 0x2080 0x2089

/-- A subscript digit as a digit of ASCII. -/
def plainDigit (c : CodePoint) : CodePoint :=
  if c.inRange 0x2080 0x2089 then CodePoint.ofNat (c.val - 0x2080 + 0x30) else c

/-- A bar with digits after it: the digits, and the text behind them. -/
def barWithDigits? (s : Text) : Option (Text × Text) :=
  match s.dropPrefix? normBar with
  | some r =>
    let (digits, rest) := r.span isScriptDigit
    if digits.isEmpty then none else some (digits, rest)
  | none => none

/-- A bar with digits as a construct; all its runs have the given properties. -/
def scriptedBar (digits : Text) (properties : Option Node) : Node :=
  let bar := [run normBar properties]
  match digits with
  | d :: e :: rest => subSuperscript bar [run [d] properties] [run (e :: rest) properties]
  | _ => subscript bar [run digits properties]

/-- A run with the given text and properties; nothing for no text. -/
def runUnlessEmpty (text : Text) (properties : Option Node) : List Node :=
  if text.isEmpty then [] else [run text properties]

/-- What is put in the place of a run with the first bar that has digits after it. -/
def splitNormRun? (node : Node) : Option (List Node) :=
  match Text.breakAt? barWithDigits? (node.runText?.getD []) with
  | some (before, digits, after) =>
    let properties := node.runProperties?
    some (runUnlessEmpty before properties ++
      scriptedBar (digits.map plainDigit) properties :: runUnlessEmpty after properties)
  | none => none

mutual

/-- Repairs the first run in a node, itself included; nothing if there is none to repair. -/
def splitFirstIn? : Node → Option (List Node)
  | .element tag text children tail =>
    match splitNormRun? (.element tag text children tail) with
    | some new => some new
    | none => (splitFirstAmong? children).map fun children => [.element tag text children tail]
  | _ => none

/-- Repairs the first run in several nodes; nothing if there is none to repair. -/
def splitFirstAmong? : List Node → Option (List Node)
  | [] => none
  | node :: rest => match splitFirstIn? node with
    | some new => some (new ++ rest)
    | none => (splitFirstAmong? rest).map (node :: ·)

end

/-- Repairs the first run again and again, at most `rounds` times. -/
def splitNormRunsFor : Nat → List Node → List Node
  | 0, nodes => nodes
  | rounds + 1, nodes => match splitFirstAmong? nodes with
    | some nodes => splitNormRunsFor rounds nodes
    | none => nodes

/-- The most runs that are repaired. -/
def maxNormRounds : Nat := 64

/-- The digits glued to bars as scripts. -/
def repairNorms (f : Fragment) : Fragment := { f with children := splitNormRunsFor maxNormRounds f.children }

end EquationExport.Omml.Repair
