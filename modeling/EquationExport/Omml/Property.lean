import EquationExport.Omml.Element

/-!
# Properties of constructs

A construct keeps its properties in a group, its first child as a rule: one element for each property, with
the value in an attribute. The schema orders the properties of some groups, and a property that is set for
the first time is put in its place in that order.
-/

namespace EquationExport

open Xml

namespace Omml

/-- The attribute that holds the value of a property. -/
def valueName : Name := mathName "val"

/-- An element of equation markup with the given children. -/
def mathElement (name : Text) (children : List Node) : Node :=
  .element ⟨mathName name, [], []⟩ none children []

/-- The order of the properties in a group; none for a group that is not listed. -/
def schemaOrder (group : Text) : List Text :=
  if group = "naryPr" then ["chr", "limLoc", "grow", "subHide", "supHide", "ctrlPr"]
  else if group = "dPr" then ["begChr", "sepChr", "endChr", "grow", "shp", "ctrlPr"]
  else []

/-- Stands before a new property in schema order; a property that is not ordered comes last. -/
def standsBefore (order : List Text) (name : Text) (node : Node) : Bool :=
  node.localPart?.any fun other => order.contains other && order.idxOf other < order.idxOf name

/-- Puts a new property behind the last one that stands before it. -/
def insertOrdered (order : List Text) (name : Text) (new : Node) (properties : List Node) : List Node :=
  let after := (properties.reverse.takeWhile fun p => !standsBefore order name p).reverse
  properties.take (properties.length - after.length) ++ new :: after

/-- Changes the first node that satisfies `p`. -/
def modifyFirst (p : Node → Bool) (f : Node → Node) : List Node → List Node
  | [] => []
  | node :: rest => if p node then f node :: rest else node :: modifyFirst p f rest

end Omml

namespace Xml.Node

open Omml

/-- Makes sure that a group of properties is there. -/
def ensureGroup (node : Node) (group : Text) : Node :=
  if (node.slot? group).isSome then node
  else node.withChildren (mathElement group [] :: node.children)

/-- Makes sure that a property is in its group. -/
def ensureProperty (node : Node) (group name : Text) : Node :=
  let node := node.ensureGroup group
  node.withChildren (modifyFirst (·.isNamed group) (fun g =>
    if (g.slot? name).isSome then g
    else g.withChildren (insertOrdered (schemaOrder group) name (mathElement name []) g.children))
    node.children)

/-- Gives a property of a construct a value. -/
def setProperty (node : Node) (group name value : Text) : Node :=
  let node := node.ensureProperty group name
  node.withChildren (modifyFirst (·.isNamed group) (fun g =>
    g.withChildren (modifyFirst (·.isNamed name) (·.setAttribute valueName value) g.children))
    node.children)

/-- The value of a property of a construct. -/
def property? (node : Node) (group name : Text) : Option Text :=
  let groups := node.children.filter (·.isNamed group)
  (groups.flatMap fun g => g.children.filter (·.isNamed name)).head?.bind (·.attribute? valueName)

end Xml.Node

end EquationExport
