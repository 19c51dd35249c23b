import EquationExport.Omml.Repair.Sweep
import EquationExport.Text.Digit
import EquationExport.Xml.Traverse

/-!
# Integrals and other n-ary operators

An integral sign that is plain text, or the base of scripts, becomes an n-ary operator. An operator with an
empty body adopts the run that follows it. The limits of integrals stand under and over the sign.
-/

namespace EquationExport.Omml.Repair

open Xml

/-- The place of limits under and over their operator. -/
def underOver : Text := "undOvr"

/-- The sign that an n-ary operator has if it names none. -/
def defaultOperator : Text := "∫"

/-- The sign of an n-ary operator. -/
def operatorOf (node : Node) : Text :=
  match node.property? "naryPr" "chr" with
  | some sign => if sign.isEmpty then defaultOperator else sign
  | none => defaultOperator

/-- An n-ary operator with one of the given signs. -/
def isNaryOf (glyphs : Text) (node : Node) : Bool :=
  node.isNamed "nary" && isGlyphOf glyphs (operatorOf node)

/-! ### Operators out of runs and scripts -/

/-- The children of a slot; none if the slot is missing. -/
def slotChildren (node : Node) (name : Text) : List Node :=
  match node.slot? name with
  | some slot => slot.children
  | none => []

/-- Scripts on a base that is a large operator, as an operator with limits. -/
def promoteScript (node : Node) : Node :=
  if node.isScript then
    match slotChildren node "e" with
    | [base] =>
      let sign := base.glyphs
      if isGlyphOf largeOperators sign then
        nary sign (slotChildren node "sub") (slotChildren node "sup") []
          (if isGlyphOf integralGlyphs sign then some underOver else none)
      else node
    | _ => node
  else node

/-- A run of digits, as a limit in front of some objects, and the objects after it. -/
def lowerLimit (objects : List Node) : List Node × List Node :=
  match objects with
  | node :: rest =>
    if !node.glyphs.isEmpty && node.glyphs.all (·.isDigit) then ([plainRun node.glyphs], rest) else ([], objects)
  | [] => ([], [])

/-- A run with the sign of infinity, as a limit in front of some objects, and the objects after it. -/
def upperLimit (objects : List Node) : List Node × List Node :=
  match objects with
  | node :: rest => if node.glyphs = "∞" then ([plainRun "∞"], rest) else ([], objects)
  | [] => ([], [])

/-- The first integral sign in a run, with the limits that follow it; `i` objects stand before. -/
def integralSpan (i : Nat) : List Node → Option Span
  | [] => none
  | node :: rest =>
    let sign := node.glyphs
    if isGlyphOf integralGlyphs sign then
      let (sub, rest) := lowerLimit rest
      let (sup, _) := upperLimit rest
      some ⟨i, i + 1 + sub.length + sup.length, fun _ => nary sign sub sup [] (some underOver)⟩
    else integralSpan (i + 1) rest

/-- Integral signs, and large operators with scripts, as n-ary operators. -/
def rebuildIntegrals (f : Fragment) : Fragment :=
  let f := { f with children := rebuildAll (fun node => [promoteScript node]) f.children }
  (sweepUntilStable (integralSpan 0) f).1

/-! ### Bodies -/

/-- A small Latin or Greek letter or capital, as a variable of integration. -/
def isVariable (c : CodePoint) : Bool := c.isAsciiLetter || c.inRange 0x391 0x3C9

/-- The text is a differential: a `d` with one letter after it, or none. -/
def isDifferential (s : Text) : Bool :=
  match s.trim with
  | [] => false
  | c :: rest => (c == 'd' || c == 'ⅆ') &&
    (match Text.trimStart rest with
    | [] => true
    | [x] => isVariable x
    | _ => false)

/-- A run that may become the body of an operator: no blank, closing delimiter or differential. -/
def isAdoptable (node : Node) : Bool :=
  match node.runText? with
  | some text => !text.isBlank && !isClosing text.trim && !isDifferential text
  | none => false

/-- An n-ary operator has a body slot; other nodes stay as they are. -/
def ensureBody (node : Node) : Node :=
  if node.isNamed "nary" && (node.slot? "e").isNone then
    node.withChildren (node.children ++ [mathElement "e" []])
  else node

/-- An n-ary operator without a body, or with an empty one. -/
def lacksBody (node : Node) : Bool :=
  node.isNamed "nary" && (match node.slot? "e" with
    | some body => body.isEmptySlot
    | none => true)

/-- Puts a node at the end of the body of an operator. -/
def appendToBody (node new : Node) : Node :=
  node.withChildren
    (modifyFirst (·.isNamed "e") (fun body => body.withChildren (body.children ++ [new])) node.children)

mutual

/-- Adopts runs inside a node. -/
def adoptInside : Node → Node
  | .element tag text children tail => ensureBody (.element tag text (adoptAmong children) tail)
  | .comment content tail => .comment content tail
  | .instruction target content tail => .instruction target content tail

/-- Adopts runs among neighbours: an operator that lacks a body takes the run behind it. -/
def adoptAmong : List Node → List Node
  | [] => []
  | [node] => [adoptInside node]
  | node :: next :: rest =>
    if lacksBody node && isAdoptable next then
      appendToBody (adoptInside node) (adoptInside next) :: adoptAmong rest
    else adoptInside node :: adoptAmong (next :: rest)

end

/-- Every operator has a body, which is the run behind it if that can be. -/
def adoptIntegrands (f : Fragment) : Fragment := { f with children := adoptAmong f.children }

/-! ### Limits -/

/-- An integral has its limits under and over its sign. -/
def placeLimits (node : Node) : Node :=
  if isNaryOf integralGlyphs node then node.setProperty "naryPr" "limLoc" underOver else node

/-- The limits of all integrals under and over their signs. -/
def placeIntegralLimits (f : Fragment) : Fragment :=
  { f with children := rebuildAll (fun node => [placeLimits node]) f.children }

end EquationExport.Omml.Repair
