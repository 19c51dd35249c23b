import EquationExport.Omml.Fragment

/-!
# Elements of equation markup

What an element of equation markup is: a run of text, a construct with slots for its parts, a slot, or a
group of properties. An element is told by its name in the namespace of equation markup.
-/

namespace EquationExport

open Xml

/-- The name of an element or attribute of equation markup. -/
def Omml.mathName (localPart : Text) : Name := ⟨some "m", some mathNamespace, localPart⟩

namespace Xml.Node

open Omml

/-- An element of equation markup. -/
def isMath (node : Node) : Bool := node.name?.any (·.space == some mathNamespace)

/-- The element of equation markup with the given name. -/
def isNamed (node : Node) (name : Text) : Bool :=
  node.name?.any fun n => n.localPart == name && n.space == some mathNamespace

/-- An element of equation markup with one of the given names. -/
def isOneOf (node : Node) (names : List Text) : Bool := names.any node.isNamed

/-- A run of text. -/
def isRun (node : Node) : Bool := node.isNamed "r"

/-- The text of a run: all its text elements, one after the other. -/
def runText? (node : Node) : Option Text :=
  if node.isRun then
    some (((subtree node).filter (·.isNamed "t")).flatMap fun t => t.text?.getD [])
  else none

/-- The text of a run without white space at its ends; empty for anything else. -/
def glyphs (node : Node) : Text := (node.runText?.getD []).trim

/-- The first child with the given name. -/
def slot? (node : Node) (name : Text) : Option Node := node.children.find? (·.isNamed name)

/-- The properties of a run. -/
def runProperties? (node : Node) : Option Node := node.slot? "rPr"

/-- Nothing in it but white space. -/
def isEmptySlot (node : Node) : Bool := node.children.isEmpty && Text.isBlank (node.text?.getD [])

end Xml.Node

namespace Omml

/-- The constructs that stand taller than a line of text. -/
def tallConstructs : List Text :=
  ["m", "f", "rad", "nary", "eqArr", "limLow", "limUpp", "d", "sSub", "sSup", "sSubSup", "sPre", "groupChr"]

/-- The elements whose children are a sequence of mathematical objects. -/
def containerNames : List Text := ["oMath", "e", "num", "den", "sub", "sup", "deg", "fName", "lim"]

/-- The constructs that set scripts on a base. -/
def scriptNames : List Text := ["sSub", "sSup", "sSubSup"]

/-- The pairs of delimiters. -/
def delimiterPairs : List (CodePoint × CodePoint) :=
  [('(', ')'), ('[', ']'), ('\x7b', '\x7d'), ('⟨', '⟩'), ('〈', '〉'), ('|', '|'), ('‖', '‖')]

/-- The delimiter that closes what the given text opens, if the text is an opening delimiter. -/
def closing? (opening : Text) : Option Text :=
  (delimiterPairs.find? fun pair => [pair.1] == opening).map fun pair => [pair.2]

/-- The text is a delimiter that can close. -/
def isClosing (t : Text) : Bool := delimiterPairs.any fun pair => [pair.2] == t

/-- The text is one of the given glyphs. -/
def isGlyphOf (glyphs t : Text) : Bool :=
  match t with
  | [c] => glyphs.containsPoint c
  | _ => false

/-- The integral signs. -/
def integralGlyphs : Text := "∫∬∭∮∯∰∱∲∳"

/-- The sum sign. -/
def sumGlyphs : Text := "∑"

/-- The operators that take limits. -/
def largeOperators : Text := integralGlyphs ++ ("∑∏∐⋃⋂⋁⋀⨀⨁⨂" : Text)

end Omml

namespace Xml.Node

open Omml

/-- A construct that stands taller than a line of text. -/
def isTall (node : Node) : Bool := node.isOneOf tallConstructs

/-- An element whose children are a sequence of mathematical objects. -/
def isContainer (node : Node) : Bool := node.isOneOf containerNames

/-- A construct that sets scripts on a base. -/
def isScript (node : Node) : Bool := node.isOneOf scriptNames

end Xml.Node

namespace Omml

/-- All nodes of the fragment, in document order. -/
def Fragment.nodes (f : Fragment) : List Node := Node.subtrees f.children

/-- The fragment as the root element that it is read in. -/
def Fragment.root (f : Fragment) : Node :=
  .element ⟨⟨none, none, rootName⟩, [], []⟩ f.text f.children []

/-- The fragment and all containers in it, in document order. -/
def Fragment.containers (f : Fragment) : List Node := f.root :: f.nodes.filter (·.isContainer)

/-- The fragment holds a fraction. -/
def Fragment.hasFraction (f : Fragment) : Bool := f.nodes.any (·.isNamed "f")

mutual

/--
Whether a fraction stands at the top of an equation, in a child of an element; `top` says that what stands
directly in that element stands at the top.
-/
def hasTopFraction (top : Bool) : Node → Bool
  | .element tag text children tail =>
    let node : Node := .element tag text children tail
    (top && node.isNamed "f") ||
      (if node.isNamed "box" then hasTopFractionInBox top children
      else hasTopFractions (node.isNamed "oMath") children)
  | _ => false

/-- Whether a fraction stands at the top, in the children of an element that is no box. -/
def hasTopFractions (top : Bool) : List Node → Bool
  | [] => false
  | node :: rest => hasTopFraction top node || hasTopFractions top rest

/-- Whether a fraction stands at the top, in the children of a box; its slot is looked through. -/
def hasTopFractionInBox (top : Bool) : List Node → Bool
  | [] => false
  | .element tag text children tail :: rest =>
    let node : Node := .element tag text children tail
    (if node.isNamed "e" then hasTopFractions top children else hasTopFraction false node) ||
      hasTopFractionInBox top rest
  | _ :: rest => hasTopFractionInBox top rest

end

/-- A fraction stands directly in an equation or in the fragment, boxes with a slot looked through. -/
def Fragment.hasTopLevelFraction (f : Fragment) : Bool := hasTopFractions true f.children

end Omml

end EquationExport
