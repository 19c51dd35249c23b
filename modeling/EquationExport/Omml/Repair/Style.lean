import EquationExport.Omml.Construct
import EquationExport.Text.Clean
import EquationExport.Xml.Traverse

/-!
# Styles and text

Properties whose value is the word `undefined` go, and run properties with nothing in them after that.
The text of runs is cleaned, and white space that would be lost is declared to count.
-/

namespace EquationExport.Omml.Repair

open Xml

/-- An element that groups properties: its name ends in `Pr`, in any namespace. -/
def isPropertyGroup (tag : Tag) : Bool := tag.name.localPart.endsWith "Pr"

/-- The name of an attribute without a namespace. -/
def bareValueName : Name := ⟨none, none, "val"⟩

/-- The value of the element is the word `undefined`. -/
def isUndefined (node : Node) : Bool :=
  node.attribute? valueName == some "undefined" || node.attribute? bareValueName == some "undefined"

/-- Run properties with no child. -/
def isEmptyRunProperties (node : Node) : Bool := node.isNamed "rPr" && node.children.isEmpty

/-- No undefined properties, and no run properties without content. -/
def removeUndefinedStyles (f : Fragment) : Fragment :=
  let defined := pruneAll (fun parent node => !(parent.any isPropertyGroup && isUndefined node)) none f.children
  { f with children := pruneAll (fun _ node => !isEmptyRunProperties node) none defined }

/-- The text of a text element in clean form. -/
def normalizeTextElement (node : Node) : Node :=
  match node with
  | .element tag text children tail =>
    if node.isNamed "t" then
      let text := (text.getD []).sanitize.plainSpaces
      let tag := if text != text.trim || text.contains "  " then
          tag.setAttribute preserveSpace.name preserveSpace.value
        else tag
      .element tag (some text) children tail
    else node
  | other => other

/-- The text of all text elements in clean form. -/
def normalizeTexts (f : Fragment) : Fragment :=
  { f with children := rebuildAll (fun node => [normalizeTextElement node]) f.children }

end EquationExport.Omml.Repair
