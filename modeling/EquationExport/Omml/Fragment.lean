import EquationExport.Text.Alphanumeric
import EquationExport.Text.Substitution
import EquationExport.Xml.NameCharacter
import EquationExport.Xml.Reader
import EquationExport.Xml.Writer

/-!
# Fragments of equation markup

A converter gives a piece of markup without a root of its own. It is read as the content of a root that
declares the usual qualifiers, and written back without any declaration.
-/

namespace EquationExport.Omml

open Xml

/-- A piece of equation markup: the content of a root that is not part of it. -/
structure Fragment where
  /-- The text before the first child. -/
  text : Option Text
  children : List Node
  deriving Inhabited

/-- The name of the root that a fragment is read in. -/
def rootName : Text := "omml-fragment"

/-- The qualifiers that a fragment may use without declaring them. -/
def knownQualifiers : Scope := [
  ⟨some "m", mathNamespace⟩,
  ⟨some "w", wordNamespace⟩,
  ⟨some "wp", "http://schemas.openxmlformats.org/drawingml/2006/wordprocessingDrawing"⟩,
  ⟨some "a", "http://schemas.openxmlformats.org/drawingml/2006/main"⟩,
  ⟨some "mc", "http://schemas.openxmlformats.org/markup-compatibility/2006"⟩,
  ⟨some "r", "http://schemas.openxmlformats.org/officeDocument/2006/relationships"⟩]

/-- The text without a declaration of XML at its front, and the white space around that. -/
def dropXmlDeclaration (s : Text) : Text :=
  match s.trimStart.dropPrefix? "<?xml" with
  | some r => match r.breakOn? ">" with
    | some (inside, rest) => if inside.endsWith "?" then rest.trimStart else s
    | none => s
  | none => s

/-- What follows a declaration of a namespace with the white space before it. -/
def skipDeclaration? (s : Text) : Option Text :=
  match s with
  | [] => none
  | c :: _ =>
    if c.isSpace then do
      let r ← s.trimStart.dropPrefix? "xmlns"
      let r := match r.dropPrefix? ":" with
        | some q => if q.atWordEnd then r else q.dropWhile (·.isWord)
        | none => r
      let r ← Text.dropPrefix? r "=\""
      (r.breakOn? "\"").map (·.2)
    else none

/-- The text without declarations of namespaces, wherever they stand. -/
def dropDeclarations (s : Text) : Text := s.substitute (Text.deleting skipDeclaration?)

/-- Reads a fragment; nothing if it is not well-formed. -/
def Fragment.parse? (omml : Text) : Option Fragment :=
  (readContent? ⟨⟨none, none, rootName⟩, [], []⟩ knownQualifiers (dropXmlDeclaration omml)).map
    fun (text, children) => ⟨text, children⟩

/-- The fragment as it is written; text directly in it is left out. -/
def Fragment.write (f : Fragment) : Text := dropDeclarations (f.children.flatMap (·.write))

/-- The markup seems to hold a fraction, going by its tags as they are written. -/
def hasFractionMarker (omml : Text) : Bool :=
  omml.holds fun r => match r.dropPrefix? "<m:f" with
    | some (c :: rest) => if c.isSpace || c == '/' || c == '>' then some rest else none
    | _ => none

end EquationExport.Omml
