import EquationExport.Html.Node

/-!
# Writing page trees

An element is written with its attributes in the order of their names, each value between double quotes if
possible. Only the three characters that markup is made of are escaped; scripts and style sheets are written
as they are.
-/

namespace EquationExport.Html

/-- The attributes whose value is a list of words on any element. -/
def wordAttributes : List Text := ["class", "accesskey", "dropzone"]

/-- The attributes whose value is a list of words on certain elements. -/
def elementWordAttributes : List (Text × Text) := [
  ("a", "rel"), ("a", "rev"), ("link", "rel"), ("link", "rev"), ("td", "headers"), ("th", "headers"),
  ("form", "accept-charset"), ("object", "archive"), ("area", "rel"), ("icon", "sizes"), ("iframe", "sandbox"),
  ("output", "for")]

/-- The value of an attribute as it is kept: a list of words has single spaces between. -/
def keptValue (element : Text) (a : Text × Text) : Text :=
  if a.1 ∈ wordAttributes || (element, a.1) ∈ elementWordAttributes then Text.join " " (words a.2) else a.2

/-- The order of texts by their code points. -/
def precedes : Text → Text → Bool
  | [], _ => true
  | _ :: _, [] => false
  | a :: s, b :: t => a.val < b.val || (a.val == b.val && precedes s t)

/-- A character of text or of a value, as it is written. -/
def escapePoint (c : CodePoint) : Text :=
  if c = '&' then "&amp;" else if c = '<' then "&lt;" else if c = '>' then "&gt;" else [c]

/-- Text as it is written. -/
def escape (s : Text) : Text := s.flatMap escapePoint

/-- A value in quotes: double ones, or single ones if it holds double ones only. -/
def quotedValue (value : Text) : Text :=
  if !value.containsPoint '"' then "\"" ++ value ++ ("\"" : Text)
  else if !value.containsPoint '\'' then "'" ++ value ++ ("'" : Text)
  else "\"" ++ value.flatMap (fun c : CodePoint => if c = '"' then ("&quot;" : Text) else [c]) ++ ("\"" : Text)

/-- An attribute as it is written, with the space before it. -/
def writeAttribute (element : Text) (a : Text × Text) : Text :=
  " " ++ a.1 ++ ("=" : Text) ++ quotedValue (escape (keptValue element a))

/-- What stands in the opening tag of an element between its angle brackets. -/
def writeTag (name : Text) (attributes : List (Text × Text)) : Text :=
  name ++ (attributes.mergeSort fun a b => precedes a.1 b.1).flatMap (writeAttribute name)

/-- Markup as it is written. -/
def writeMarkup (content : Text) : MarkupKind → Text
  | .comment => "<!--" ++ content ++ ("-->" : Text)
  | .cdata => "<![CDATA[" ++ content ++ ("]]>" : Text)
  | .declaration => "<?" ++ content ++ ("?>" : Text)
  | .doctype => "<!DOCTYPE " ++ content ++ (">\n" : Text)
  | .instruction => "<?" ++ content ++ (">" : Text)

/-- The elements whose text is written as it is. -/
def verbatimNames : List Text := ["script", "style"]

mutual

/-- A node as it is written; `within` is the name of the element around it. -/
def Node.writeIn (within : Text) : Node → Text
  | .text _ content => if within ∈ verbatimNames then content else escape content
  | .markup kind content => writeMarkup content kind
  | .element name attributes children =>
    let opening : Text := "<" ++ writeTag name attributes
    if children.isEmpty && isVoid name then opening ++ ("/>" : Text)
    else opening ++ (">" : Text) ++ writeNodesIn name children ++ ("</" : Text) ++ name ++ (">" : Text)

/-- Nodes as they are written one after the other. -/
def writeNodesIn (within : Text) : List Node → Text
  | [] => []
  | node :: rest => node.writeIn within ++ writeNodesIn within rest

end

/-- A node as it is written. -/
def Node.write (node : Node) : Text := node.writeIn []

end EquationExport.Html
