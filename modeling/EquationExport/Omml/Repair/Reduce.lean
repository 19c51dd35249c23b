import EquationExport.Omml.Element
import EquationExport.Xml.Traverse

/-!
# Taking superfluous nodes away

What is no equation markup goes first, and boxes that only pass on one slot go after that.
-/

namespace EquationExport.Omml.Repair

open Xml

/-- Leaves out everything that is not an element of equation markup. -/
def stripForeign (f : Fragment) : Fragment :=
  { f with children := pruneAll (fun _ node => node.isMath) none f.children }

/-- The content of a box whose only child is a slot; any other node as it is. -/
def unwrapBox (node : Node) : List Node :=
  match node.isNamed "box", node.children with
  | true, [slot] => if slot.isNamed "e" then slot.children else [node]
  | _, _ => [node]

/-- Puts the content of boxes without properties in their place. -/
def unwrapBoxes (f : Fragment) : Fragment := { f with children := rebuildAll unwrapBox f.children }

end EquationExport.Omml.Repair
