import EquationExport.Text.Search

/-!
# Markup trees

A tree of elements, comments and processing instructions. Text is kept where it stands relative to the
elements: the text before the first child belongs to the parent, the text after a node is the *tail* of that
node and goes where the node goes.
-/

namespace EquationExport.Xml

/-- A name with the namespace it is in and the qualifier it was written with. -/
structure Name where
  qualifier : Option Text
  space : Option Text
  localPart : Text
  deriving DecidableEq

/-- The name as it is written. -/
def Name.written (name : Name) : Text :=
  match name.qualifier with
  | some q => q ++ (":" : Text) ++ name.localPart
  | none => name.localPart

/-- Two names are the same if namespace and local part agree; the qualifier does not matter. -/
def Name.same (a b : Name) : Bool := a.space == b.space && a.localPart == b.localPart

/-- A named value on an element. -/
structure Attribute where
  name : Name
  value : Text
  deriving DecidableEq

/-- A declaration of a namespace for a qualifier, or for names without one. -/
structure Declaration where
  qualifier : Option Text
  space : Text
  deriving DecidableEq

/-- What an element's opening tag says. -/
structure Tag where
  name : Name
  declarations : List Declaration
  attributes : List Attribute
  deriving DecidableEq

/-- The value of an attribute. -/
def Tag.attribute? (tag : Tag) (name : Name) : Option Text :=
  (tag.attributes.find? (·.name.same name)).map (·.value)

/-- Gives an attribute a value: in its place if it is there, at the end if not. -/
def Tag.setAttribute (tag : Tag) (name : Name) (value : Text) : Tag :=
  if tag.attributes.any (·.name.same name) then
    { tag with attributes := tag.attributes.map fun a => if a.name.same name then ⟨a.name, value⟩ else a }
  else { tag with attributes := tag.attributes ++ [⟨name, value⟩] }

/-- A node of a markup tree, with its tail. -/
inductive Node where
  /-- An element. Its text may be there and empty, which is written differently from no text. -/
  | element (tag : Tag) (text : Option Text) (children : List Node) (tail : Text)
  | comment (content tail : Text)
  /-- A processing instruction, with or without content after its target. -/
  | instruction (target : Text) (content : Option Text) (tail : Text)
  deriving Inhabited

namespace Node

/-- The children of an element. -/
def children : Node → List Node
  | element _ _ children _ => children
  | _ => []

/-- The text before the first child of an element, or the content of a comment or instruction. -/
def text? : Node → Option Text
  | element _ text _ _ => text
  | comment content _ => some content
  | instruction _ content _ => content

/-- The text that follows the node. -/
def tail : Node → Text
  | element _ _ _ tail => tail
  | comment _ tail => tail
  | instruction _ _ tail => tail

/-- The node with another tail. -/
def withTail (node : Node) (tail : Text) : Node :=
  match node with
  | element tag text children _ => element tag text children tail
  | comment content _ => comment content tail
  | instruction target content _ => instruction target content tail

/-- The opening tag of an element. -/
def tag? : Node → Option Tag
  | element tag _ _ _ => some tag
  | _ => none

/-- The name of an element. -/
def name? (node : Node) : Option Name := node.tag?.map (·.name)

/-- The local part of the name of an element. -/
def localPart? (node : Node) : Option Text := node.name?.map (·.localPart)

/-- The value of an attribute of an element. -/
def attribute? (node : Node) (name : Name) : Option Text := node.tag?.bind (·.attribute? name)

/-- An element with other children. -/
def withChildren (node : Node) (children : List Node) : Node :=
  match node with
  | element tag text _ tail => element tag text children tail
  | other => other

/-- An element with an attribute set. -/
def setAttribute (node : Node) (name : Name) (value : Text) : Node :=
  match node with
  | element tag text children tail => element (tag.setAttribute name value) text children tail
  | other => other

mutual

/-- The node and all nodes inside it, in document order. -/
def subtree : Node → List Node
  | element tag text children tail => element tag text children tail :: subtrees children
  | other => [other]

/-- The nodes of several trees, in document order. -/
def subtrees : List Node → List Node
  | [] => []
  | node :: rest => subtree node ++ subtrees rest

end

@[simp] theorem subtrees_nil : subtrees [] = [] := rfl

@[simp] theorem subtrees_cons (node : Node) (rest : List Node) :
    subtrees (node :: rest) = subtree node ++ subtrees rest := rfl

theorem subtrees_append (a b : List Node) : subtrees (a ++ b) = subtrees a ++ subtrees b := by
  induction a with
  | nil => rfl
  | cons node a ih => simp [ih]

end Node

end EquationExport.Xml
