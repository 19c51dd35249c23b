import EquationExport.Text.Search

/-!
# Page trees

The tree of a page: elements with attributes in the order in which they were written, text, and other markup
such as comments. Text in a few elements (scripts, style sheets, templates, ruby glosses) is of a kind of its
own and is no part of the text of the elements around them.
-/

namespace EquationExport.Html

/-- What kind of text a text node holds, going by the element it stands in. -/
inductive TextKind where
  | plain
  | script
  | style
  | template
  | rubyText
  | rubyParenthesis
  deriving DecidableEq

/-- The elements that give a kind of its own to the text inside. -/
def TextKind.ofName? (name : Text) : Option TextKind :=
  if name = "script" then some .script
  else if name = "style" then some .style
  else if name = "template" then some .template
  else if name = "rt" then some .rubyText
  else if name = "rp" then some .rubyParenthesis
  else none

/-- Markup that is neither element nor text. -/
inductive MarkupKind where
  | comment
  | cdata
  | declaration
  | doctype
  | instruction
  deriving DecidableEq

/-- A node of a page tree. -/
inductive Node where
  | element (name : Text) (attributes : List (Text × Text)) (children : List Node)
  | text (kind : TextKind) (content : Text)
  | markup (kind : MarkupKind) (content : Text)
  deriving Inhabited

/-- The elements that have no content. -/
def voidNames : List Text := Text.ofStrings [
  "area", "base", "br", "col", "embed", "hr", "img", "input", "keygen", "link", "menuitem", "meta", "param",
  "source", "track", "wbr", "basefont", "bgsound", "command", "frame", "image", "isindex", "nextid", "spacer"]

/-- The element has no content. -/
def isVoid (name : Text) : Bool := voidNames.contains name

namespace Node

/-- The name of an element. -/
def name? : Node → Option Text
  | element name _ _ => some name
  | _ => none

/-- An element with the given name. -/
def isNamed (node : Node) (name : Text) : Bool := node.name?.any (· == name)

/-- An element with one of the given names. -/
def isOneOf (node : Node) (names : List Text) : Bool := names.any node.isNamed

/-- An element. -/
def isElement : Node → Bool
  | element .. => true
  | _ => false

/-- A text node. -/
def isText : Node → Bool
  | text .. => true
  | _ => false

/-- The children of an element. -/
def children : Node → List Node
  | element _ _ children => children
  | _ => []

/-- The value of an attribute. -/
def attribute? (node : Node) (name : Text) : Option Text :=
  match node with
  | element _ attributes _ => (attributes.find? (·.1 == name)).map (·.2)
  | _ => none

end Node

/-- The words between stretches of white space. `word` is the word being read, if one has begun. -/
def wordsFrom : Option Text → Text → List Text
  | word, [] => word.toList
  | word, c :: s =>
    if c.isSpace then word.toList ++ wordsFrom none s else wordsFrom (some (word.getD [] ++ [c])) s

/-- The words between stretches of white space. -/
def words (s : Text) : List Text := wordsFrom none s

namespace Node

/-- The classes of an element. -/
def classes (node : Node) : List Text := words ((node.attribute? "class").getD [])

/-- The element has the given class. -/
def hasClass (node : Node) (name : Text) : Bool := node.classes.contains name

mutual

/-- The node and all nodes inside it, in document order. -/
def subtree : Node → List Node
  | element name attributes children => element name attributes children :: subtrees children
  | other => [other]

/-- The nodes of several trees, in document order. -/
def subtrees : List Node → List Node
  | [] => []
  | node :: rest => subtree node ++ subtrees rest

end

/-- The nodes inside a node, in document order. -/
def descendants (node : Node) : List Node := subtrees node.children

/-- The first element with the given name inside a node. -/
def findNamed? (node : Node) (name : Text) : Option Node := node.descendants.find? (·.isNamed name)

/-- The text that a node adds to the text of an element whose own text is of the given kind. -/
def textOfKind? (kind : TextKind) : Node → Option Text
  | text other content => if other = kind then some content else none
  | markup .cdata content => if kind = .plain then some content else none
  | _ => none

/-- The kind of text that counts as the text of an element. -/
def ownKind (node : Node) : TextKind := (node.name?.bind TextKind.ofName?).getD .plain

/-- The pieces of text inside an element. -/
def texts (node : Node) : List Text := node.descendants.filterMap (textOfKind? node.ownKind)

/-- The text inside an element. -/
def textContent (node : Node) : Text := node.texts.flatten

/-- The pieces of text inside an element, without the white space around each, and with single spaces between. -/
def spacedText (node : Node) : Text :=
  Text.join " " ((node.texts.map (·.trim)).filter fun t => !t.isEmpty)

end Node

end EquationExport.Html
