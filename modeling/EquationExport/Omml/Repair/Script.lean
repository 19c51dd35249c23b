import EquationExport.Omml.Construct
import EquationExport.Xml.Traverse

/-!
# Scripts

The base of scripts that stands between delimiters becomes a delimiter construct. Scripts that lack a slot
which the schema asks for are taken apart.
-/

namespace EquationExport.Omml.Repair

open Xml

/-! ### Bases between delimiters -/

/-- The delimiters at the two ends of some objects, if they form a pair with at least one object between. -/
def outerDelimiters? (objects : List Node) : Option (Text × Text) :=
  match objects.head?, objects.getLast? with
  | some first, some last => match closing? first.glyphs with
    | some close =>
      if 3 ≤ objects.length && last.glyphs == close && last.isRun then some (first.glyphs, close) else none
    | none => none
  | _, _ => none

/-- The objects without the first and the last. -/
def interior (objects : List Node) : List Node := (objects.drop 1).dropLast

mutual

/-- Wraps the bases of scripts in a node, itself included. -/
def wrapBases : Node → Node
  | .element tag text children tail =>
    let script : Node := .element tag text children tail
    let out : Node := .element tag text (wrapBasesAmong children) tail
    match script.isScript, (script.slot? "e").bind fun base => outerDelimiters? base.children with
    | true, some (opening, closing) =>
      out.withChildren (modifyFirst (·.isNamed "e")
        (fun base => base.withChildren [delimiter opening closing (interior base.children)]) out.children)
    | _, _ => out
  | .comment content tail => .comment content tail
  | .instruction target content tail => .instruction target content tail

/-- Wraps the bases of scripts in several nodes. -/
def wrapBasesAmong : List Node → List Node
  | [] => []
  | node :: rest => wrapBases node :: wrapBasesAmong rest

end

/-- Script bases between delimiters as delimiter constructs. -/
def wrapScriptBases (f : Fragment) : Fragment := { f with children := wrapBasesAmong f.children }

/-! ### Scripts that lack a slot -/

/-- The script slots that a construct has to have. -/
def requiredSlots (node : Node) : List Text :=
  if node.isNamed "sSub" then ["sub"] else if node.isNamed "sSup" then ["sup"] else ["sub", "sup"]

/-- Scripts without a base go; scripts that lack a script slot become their base. -/
def dissolveInvalid (node : Node) : List Node :=
  if node.isScript then
    match node.slot? "e" with
    | none => []
    | some base =>
      if (requiredSlots node).all fun name => (node.slot? name).isSome then [node] else base.children
  else [node]

/-- No scripts that lack a slot; what one of them leaves behind is looked at once more. -/
def repairInvalidScripts (f : Fragment) : Fragment :=
  { f with children := rebuildAll dissolveInvalid (rebuildAll dissolveInvalid f.children) }

end EquationExport.Omml.Repair
