import EquationExport.Text.Digit
import EquationExport.Xml.Token
import EquationExport.Xml.Node

/-!
# Namespaces in scope

The declarations on an element give namespaces to the qualifiers inside it. A name with a qualifier that
nothing declares is refused, and so is a declaration that touches the two reserved qualifiers, undeclares
a qualifier, or names a namespace that could be no address.
-/

namespace EquationExport.Xml

/-- The namespace of the qualifier `xml`. -/
def xmlNamespace : Text := "http://www.w3.org/XML/1998/namespace"

/-- The namespace of the qualifier `xmlns`. -/
def declarationNamespace : Text := "http://www.w3.org/2000/xmlns/"

/-- The attribute that says whether white space is to be kept. -/
def spaceAttribute : Name := ⟨some "xml", some xmlNamespace, "space"⟩

/-- The declarations in force, the nearest first. -/
abbrev Scope := List Declaration

/-- The namespace of a qualifier; an empty one stands for none. -/
def Scope.find? (scope : Scope) (qualifier : Option Text) : Option Text :=
  if qualifier = some "xml" then some xmlNamespace
  else match List.find? (fun d : Declaration => d.qualifier == qualifier) scope with
    | some d => if d.space.isEmpty then none else some d.space
    | none => none

/-- The characters of an address, percent signs aside. -/
def isAddressPart (c : CodePoint) : Bool :=
  c.isAsciiLetter || c.isAsciiDigit || c ∈ ("-._~:/?#[]@!$&'()*+,;=" : Text)

/-- Only characters of an address, with two hexadecimal digits after each percent sign. -/
def isAddress : Text → Bool
  | [] => true
  | c :: s =>
    if c = '%' then
      (match s with
      | a :: b :: rest => a.isHexDigit && b.isHexDigit && isAddress rest
      | _ => false)
    else isAddressPart c && isAddress s

/-- What an attribute declares, if it is a declaration. -/
def declared? : WrittenName → Option (Option Text)
  | (none, name) => if name = "xmlns" then some none else none
  | (some qualifier, name) => if qualifier = "xmlns" then some (some name) else none

/-- The qualifier `xml` may be declared as what it is; this says nothing new. -/
def redeclaresXml (d : Declaration) : Bool := d.qualifier == some "xml" && d.space == xmlNamespace

/-- A declaration that may stand. -/
def Declaration.isValid (d : Declaration) : Bool :=
  redeclaresXml d ||
    (d.space != xmlNamespace && d.space != declarationNamespace && isAddress d.space &&
      d.qualifier != some "xml" && d.qualifier != some "xmlns" && (d.qualifier.isNone || !d.space.isEmpty))

/-- No two items of a list have the same key. -/
def distinctBy [BEq β] (key : α → β) : List α → Bool
  | [] => true
  | a :: rest => !rest.any (fun b => key b == key a) && distinctBy key rest

/-- The name of an attribute. Without a qualifier it is in no namespace. -/
def attributeName? (scope : Scope) : WrittenName → Option Name
  | (none, name) => some ⟨none, none, name⟩
  | (some qualifier, name) => (scope.find? (some qualifier)).map fun space => ⟨some qualifier, some space, name⟩

/-- The name of an element. Without a qualifier it is in the default namespace, if there is one. -/
def elementName? (scope : Scope) : WrittenName → Option Name
  | (none, name) => some ⟨none, scope.find? none, name⟩
  | (some qualifier, name) => (scope.find? (some qualifier)).map fun space => ⟨some qualifier, some space, name⟩

/-- An opening tag with its names resolved, and the scope inside the element. -/
def resolve? (scope : Scope) (written : WrittenTag) : Option (Tag × Scope) := do
  let declarations := written.attributes.filterMap fun (name, value) =>
    (declared? name).map (Declaration.mk · value)
  if !(declarations.all (·.isValid) && distinctBy (·.qualifier) declarations) then none
  else
    let declarations := declarations.filter fun d => !redeclaresXml d
    let scope : Scope := declarations ++ scope
    let name ← elementName? scope written.name
    let plain := written.attributes.filter fun (name, _) => (declared? name).isNone
    let attributes ← plain.mapM fun (name, value) => (attributeName? scope name).map (Attribute.mk · value)
    if distinctBy (fun a : Attribute => (a.name.space, a.name.localPart)) attributes then
      some (⟨name, declarations, attributes⟩, scope)
    else none

end EquationExport.Xml
