import EquationExport.Text.Search

/-!
# Names in markup

The characters of names in XML 1.0 (fifth edition) without the colon, which joins a qualifier to a local
part, and the namespaces that names are in.
-/

namespace EquationExport

/-- The characters past ASCII that may start a name. -/
def CodePoint.nameStartRanges : List (Nat × Nat) := [
  (0xC0, 0xD6), (0xD8, 0xF6), (0xF8, 0x2FF), (0x370, 0x37D), (0x37F, 0x1FFF), (0x200C, 0x200D),
  (0x2070, 0x218F), (0x2C00, 0x2FEF), (0x3001, 0xD7FF), (0xF900, 0xFDCF), (0xFDF0, 0xFFFD),
  (0x10000, 0xEFFFF)]

/-- May start a name. -/
def CodePoint.isNameStart (c : CodePoint) : Bool :=
  c.inRange 0x41 0x5A || c.inRange 0x61 0x7A || c == '_' || c.inRanges nameStartRanges

/-- May stand in a name. -/
def CodePoint.isNamePart (c : CodePoint) : Bool :=
  c.isNameStart || c.inRange 0x30 0x39 || c == '-' || c == '.' || c.val == 0xB7 ||
    c.inRange 0x300 0x36F || c.inRange 0x203F 0x2040

namespace Xml

/-- A name without a colon at the front, taken as long as it goes, and what follows it. -/
def plainName? (s : Text) : Option (Text × Text) :=
  match s with
  | c :: _ => if c.isNameStart then some (s.span (·.isNamePart)) else none
  | [] => none

/-- A name at the front, with its qualifier if it has one, and what follows it. -/
def qualifiedName? (s : Text) : Option ((Option Text × Text) × Text) :=
  match plainName? s with
  | none => none
  | some (first, rest) => match rest.dropPrefix? ":" with
    | none => some ((none, first), rest)
    | some rest => match plainName? rest with
      | none => none
      | some (second, rest) => if rest.startsWith ":" then none else some ((some first, second), rest)

end Xml

end EquationExport

/-!
### Namespaces

The namespaces of the markup that this library writes or meets.
-/

namespace EquationExport

/-- The namespace of equation markup. -/
def mathNamespace : Text := "http://schemas.openxmlformats.org/officeDocument/2006/math"

/-- The namespace of word processing markup. -/
def wordNamespace : Text := "http://schemas.openxmlformats.org/wordprocessingml/2006/main"

end EquationExport
