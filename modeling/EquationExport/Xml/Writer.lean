import EquationExport.Text.Search
import EquationExport.Xml.Node

/-!
# Writing markup

Trees are written without a declaration and without any white space of their own. An element is written as
one empty tag if it has neither text nor children; text that is there and empty gives two tags.
-/

namespace EquationExport.Xml

/-!
### Text that can be written

A document can hold the characters of XML and no others. A text or attribute value with any other code
point is refused.
-/

/-- A text holds a code point that no document can hold. -/
inductive Unwritable where
  | forbiddenCharacter
  deriving DecidableEq

/-- The wording of the refusal. -/
def Unwritable.message : Unwritable → Text
  | .forbiddenCharacter =>
    "All strings must be XML compatible: Unicode or ASCII, no NULL bytes or control characters"

/-- The text, if a document can hold it. -/
def writable (s : Text) : Except Unwritable Text :=
  if s.all (·.isXml) then .ok s else .error .forbiddenCharacter

theorem writable_eq_ok_iff {s : Text} : writable s = .ok s ↔ ∀ c ∈ s, c.isXml := by
  unfold writable
  split <;> simp_all

/-! ### Trees as they are written -/

/-- A character of text: the three that markup is made of, and the carriage return, as references. -/
def escapeTextPoint (c : CodePoint) : Text :=
  if c = '&' then "&amp;" else if c = '<' then "&lt;" else if c = '>' then "&gt;"
  else if c = '\r' then "&#13;" else [c]

/-- Text between tags, as it is written. -/
def escapeText (s : Text) : Text := s.flatMap escapeTextPoint

/-- A character of an attribute value, as it is written between double quotes. -/
def escapeValuePoint (c : CodePoint) : Text :=
  if c = '&' then "&amp;" else if c = '<' then "&lt;" else if c = '>' then "&gt;"
  else if c = '"' then "&quot;" else if c = '\t' then "&#9;" else if c = '\n' then "&#10;"
  else if c = '\r' then "&#13;" else [c]

/-- An attribute value as it is written between double quotes. -/
def escapeValue (s : Text) : Text := s.flatMap escapeValuePoint

/-- A name with a value, as it is written in a tag with the space before it. -/
def writeValue (name value : Text) : Text := " " ++ name ++ ("=\"" : Text) ++ escapeValue value ++ ("\"" : Text)

/-- A declaration as it is written in a tag. -/
def Declaration.write (d : Declaration) : Text :=
  match d.qualifier with
  | some q => writeValue ("xmlns:" ++ q) d.space
  | none => writeValue "xmlns" d.space

/-- An attribute as it is written in a tag. -/
def Attribute.write (a : Attribute) : Text := writeValue a.name.written a.value

/-- What stands in an opening tag between its angle brackets. -/
def Tag.write (tag : Tag) : Text :=
  tag.name.written ++ tag.declarations.flatMap (·.write) ++ tag.attributes.flatMap (·.write)

mutual

/-- A node as it is written, without its tail. -/
def Node.write : Node → Text
  | .element tag text children _ =>
    let opening : Text := "<" ++ tag.write
    if text.isNone && children.isEmpty then opening ++ ("/>" : Text)
    else opening ++ (">" : Text) ++ escapeText (text.getD []) ++ writeNodes children ++
      ("</" : Text) ++ tag.name.written ++ (">" : Text)
  | .comment content _ => "<!--" ++ content ++ ("-->" : Text)
  | .instruction target none _ => "<?" ++ target ++ ("?>" : Text)
  | .instruction target (some content) _ => "<?" ++ target ++ (" " : Text) ++ content ++ ("?>" : Text)

/-- Nodes as they are written one after the other, each followed by its tail. -/
def writeNodes : List Node → Text
  | [] => []
  | node :: rest => node.write ++ escapeText node.tail ++ writeNodes rest

end

end EquationExport.Xml
