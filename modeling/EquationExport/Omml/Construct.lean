import EquationExport.Omml.Property

/-!
# Building constructs

Runs of text, and constructs with their slots filled. All slots that the schema asks for are there, and the
limits of an n-ary operator that are empty are hidden.
-/

namespace EquationExport.Omml

open Xml

/-- White space that would be lost unless it is declared to count. -/
def needsPreserve (s : Text) : Bool := s.startsWith " " || s.endsWith " " || s.contains "  "

/-- The declaration that all white space of an element counts. -/
def preserveSpace : Attribute := ⟨spaceAttribute, "preserve"⟩

/-- A run of text, with a copy of the given properties. -/
def run (text : Text) (properties : Option Node) : Node :=
  let attributes := if needsPreserve text then [preserveSpace] else []
  mathElement "r"
    (properties.toList ++ [.element ⟨mathName "t", [], attributes⟩ (some text) [] []])

/-- A run of text without properties. -/
def plainRun (text : Text) : Node := run text none

/-- A fraction. -/
def fraction (num den : List Node) : Node :=
  mathElement "f" [mathElement "num" num, mathElement "den" den]

/-- A base with a subscript. -/
def subscript (base sub : List Node) : Node :=
  mathElement "sSub" [mathElement "e" base, mathElement "sub" sub]

/-- A base with a subscript and a superscript. -/
def subSuperscript (base sub sup : List Node) : Node :=
  mathElement "sSubSup" [mathElement "e" base, mathElement "sub" sub, mathElement "sup" sup]

/-- An element with a property set if the condition holds. -/
def setPropertyIf (condition : Bool) (group name value : Text) (node : Node) : Node :=
  if condition then node.setProperty group name value else node

/-- An n-ary operator with its limits and its body. -/
def nary (operator : Text) (sub sup base : List Node) (limitLocation : Option Text) : Node :=
  let location := limitLocation.getD []
  let node := mathElement "nary" [mathElement "sub" sub, mathElement "sup" sup, mathElement "e" base]
  setPropertyIf sup.isEmpty "naryPr" "supHide" "1" (setPropertyIf sub.isEmpty "naryPr" "subHide" "1"
    (setPropertyIf (!location.isEmpty) "naryPr" "limLoc" location
      (node.setProperty "naryPr" "chr" operator)))

/-- Content between delimiters. -/
def delimiter (opening closing : Text) (content : List Node) : Node :=
  ((mathElement "d" [mathElement "e" content]).setProperty "dPr" "begChr" opening).setProperty
    "dPr" "endChr" closing

end EquationExport.Omml
