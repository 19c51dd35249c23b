import EquationExport.Archive.Entry
import EquationExport.Document.Create

/-!
# Packages

A document is kept as an archive of parts, one of which holds its text. `package` makes the parts of a new
document, and `patch` puts equations in the place of tokens in a package that is there already.
-/

namespace EquationExport.Package

open EquationExport.Archive (Bytes Entry)

/-- The name of the part that holds the text of a document. -/
def documentName : Text := "word/document.xml"

/-! ### Patching -/

/-- Why a package cannot be patched. -/
inductive Fault where
  | notArchive
  /-- There is no part with the text of a document. -/
  | noDocument
  /-- The text of the document is not in UTF-8. -/
  | undecodable
  /-- The run around a token cannot be told. -/
  | misplaced (f : Splice.RunFault)

/-- The name under which a part is unpacked: steps of the path that lead nowhere or upwards are left out. -/
def unpackedName (name : Text) : Text :=
  Text.join "/" ((Text.splitOn '/' name).filter fun step => step ∉ (["", ".", ".."] : List Text))

/-- Unpacks a part among others; it takes the place of one with the same name. A folder is no part. -/
def unpackPart (parts : List Entry) (e : Entry) : List Entry :=
  if e.name.endsWith "/" then parts
  else
    let name := unpackedName e.name
    parts.filter (·.name != name) ++ [⟨name, e.content⟩]

/-- The parts of an archive, unpacked one after the other. -/
def unpack (entries : List Entry) : List Entry := entries.foldl unpackPart []

/-- The text of a document with equations in it, as bytes. -/
def patchDocument (content : Bytes) (replacements : List Replacement) : Except Fault Bytes :=
  match Text.ofFile? (ByteArray.mk content.toArray) with
  | none => .error .undecodable
  | some text => match Splice.spliceAll text replacements with
    | .ok text => .ok (Archive.utf8 text)
    | .error f => .error (.misplaced f)

/-- The parts of a package with equations in the text of the document; the other parts stay as they are. -/
def patchParts (parts : List Entry) (replacements : List Replacement) : Except Fault (List Entry) := do
  match parts.find? (·.name == documentName) with
  | none => throw .noDocument
  | some document =>
    let content ← patchDocument document.content replacements
    return parts.map fun e => if e.name = documentName then ⟨e.name, content⟩ else e

/-- Patches a package. Without replacements nothing is looked at, and there is nothing to write. -/
def patch (package : Bytes) (replacements : List Replacement) : Except Fault (Option (List Entry)) := do
  if replacements.isEmpty then return none
  match Archive.read? package with
  | none => throw .notArchive
  | some entries => return some (← patchParts (unpack entries) replacements)

/-! ### New packages -/

/-- What every part starts with. -/
def xmlDeclaration : Text := "<?xml version=\"1.0\" encoding=\"UTF-8\" standalone=\"yes\"?>\n"

/-- A part that holds markup. -/
def markupPart (name content : Text) : Entry := ⟨name, Archive.utf8 (xmlDeclaration ++ content)⟩

/-- The attribute that declares the prefix of documents. -/
def documentSpace : Text :=
  " xmlns:w=\"http://schemas.openxmlformats.org/wordprocessingml/2006/main\""

/-- The kinds of the parts. -/
def contentTypes : Text :=
  let main : Text := "application/vnd.openxmlformats-officedocument.wordprocessingml."
  let override (name kind : Text) : Text :=
    "<Override PartName=\"/word/" ++ name ++ (".xml\" ContentType=\"" : Text) ++ main ++ kind ++ ("+xml\"/>" : Text)
  "<Types xmlns=\"http://schemas.openxmlformats.org/package/2006/content-types\"><Default Extension=\"rels\" ContentType=\"application/vnd.openxmlformats-package.relationships+xml\"/><Default Extension=\"xml\" ContentType=\"application/xml\"/>" ++
    override "document" "document.main" ++ override "styles" "styles" ++ override "settings" "settings" ++
    override "numbering" "numbering" ++ ("</Types>" : Text)

/-- Relationships of a part, each given by its kind and what it leads to. -/
def relationships (targets : List (Text × Text)) : Text :=
  let one (i : Nat) (kind target : Text) : Text :=
    "<Relationship Id=\"rId" ++ Text.ofNat (i + 1) ++
      ("\" Type=\"http://schemas.openxmlformats.org/officeDocument/2006/relationships/" : Text) ++ kind ++
      ("\" Target=\"" : Text) ++ target ++ ("\"/>" : Text)
  "<Relationships xmlns=\"http://schemas.openxmlformats.org/package/2006/relationships\">" ++
    ((targets.zipIdx.map fun ((kind, target), i) => one i kind target).flatten ++ ("</Relationships>" : Text))

/-- A style of paragraphs with its properties. -/
def paragraphStyle (id name : Text) (properties : Text) : Text :=
  "<w:style w:type=\"paragraph\" w:styleId=\"" ++ id ++ ("\"><w:name w:val=\"" : Text) ++ name ++
    ("\"/><w:qFormat/>" : Text) ++ properties ++ ("</w:style>" : Text)

/-- The style of headings of a level. -/
def headingStyle (level : Nat) : Text :=
  let n := Text.ofNat level
  paragraphStyle ("Heading" ++ n) ("heading " ++ n)
    (("<w:pPr><w:outlineLvl w:val=\"" : Text) ++ Text.ofNat (level - 1) ++
      ("\"/></w:pPr><w:rPr><w:b/></w:rPr>" : Text))

/-- The style of list items at a depth, up to three; `list` is the number of the list. -/
def itemStyle (id name : Text) (list depth : Nat) : Text :=
  let depthId : Text := if depth ≤ 1 then [] else Text.ofNat depth
  let depthName : Text := if depth ≤ 1 then [] else " " ++ Text.ofNat depth
  paragraphStyle (id ++ depthId) (name ++ depthName)
    (("<w:pPr><w:numPr><w:ilvl w:val=\"" : Text) ++ Text.ofNat (depth - 1) ++ ("\"/><w:numId w:val=\"" : Text) ++
      Text.ofNat list ++ ("\"/></w:numPr></w:pPr>" : Text))

/-- The styles of a document. -/
def styles : Text :=
  "<w:styles" ++ documentSpace ++ (">" : Text) ++ ([1, 2, 3, 4, 5, 6].flatMap headingStyle) ++
    ([1, 2, 3].flatMap (itemStyle "ListBullet" "List Bullet" 1)) ++
    ([1, 2, 3].flatMap (itemStyle "ListNumber" "List Number" 2)) ++
    ("<w:style w:type=\"table\" w:styleId=\"TableGrid\"><w:name w:val=\"Table Grid\"/></w:style></w:styles>" : Text)

/-- A list with three levels; `format` and `label` say how its items are marked. -/
def listDefinition (list : Nat) (format : Text) (label : Nat → Text) : Text :=
  let level (i : Nat) : Text :=
    "<w:lvl w:ilvl=\"" ++ Text.ofNat i ++ ("\"><w:start w:val=\"1\"/><w:numFmt w:val=\"" : Text) ++ format ++
      ("\"/><w:lvlText w:val=\"" : Text) ++ label i ++ ("\"/><w:pPr><w:ind w:left=\"" : Text) ++
      Text.ofNat (360 * (i + 1)) ++ ("\" w:hanging=\"360\"/></w:pPr></w:lvl>" : Text)
  "<w:abstractNum w:abstractNumId=\"" ++ Text.ofNat list ++ ("\">" : Text) ++ [0, 1, 2].flatMap level ++
    ("</w:abstractNum>" : Text)

/-- How the items of lists are marked. -/
def numbering : Text :=
  let use (list : Nat) : Text :=
    "<w:num w:numId=\"" ++ Text.ofNat list ++ ("\"><w:abstractNumId w:val=\"" : Text) ++ Text.ofNat list ++
      ("\"/></w:num>" : Text)
  "<w:numbering" ++ documentSpace ++ (">" : Text) ++ listDefinition 1 "bullet" (fun _ => "•") ++
    listDefinition 2 "decimal" (fun i => "%" ++ Text.ofNat (i + 1) ++ (("." : Text))) ++ use 1 ++ use 2 ++
    ("</w:numbering>" : Text)

/-- The settings of a document: the font of its equations. -/
def documentSettings (mathFont : Text) : Text :=
  "<w:settings" ++ documentSpace ++ (" xmlns:m=\"" : Text) ++ mathNamespace ++
    ("\"><m:mathPr><m:mathFont" : Text) ++ Xml.writeValue "m:val" mathFont ++
    ("/></m:mathPr></w:settings>" : Text)

/-- The parts of a new document. -/
def package (d : Document.Exported) : List Entry := [
  markupPart "[Content_Types].xml" contentTypes,
  markupPart "_rels/.rels" (relationships [("officeDocument", documentName)]),
  markupPart documentName d.text,
  markupPart "word/_rels/document.xml.rels" (relationships
    [("styles", "styles.xml"), ("settings", "settings.xml"), ("numbering", "numbering.xml")]),
  markupPart "word/styles.xml" styles,
  markupPart "word/settings.xml" (documentSettings d.mathFont),
  markupPart "word/numbering.xml" numbering]

/-- The bytes of the file that a new document is kept in. -/
def file (d : Document.Exported) : ByteArray := ByteArray.mk (Archive.write (package d)).toArray

end EquationExport.Package
