import EquationExport.Html.Event

/-!
# The tree of a page

The events of a page make a tree. No closing tag is implied: an element stays open until it is closed
itself or an element around it is. A closing tag closes the nearest open element of its name, with
everything that is open inside; one that matches nothing is ignored. Void elements close at once, and a
closing tag that is written for one all the same is owed to it and closes nothing else.
-/

namespace EquationExport.Html

/-- An open element. -/
structure OpenElement where
  name : Text
  attributes : List (Text × Text)
  /-- The children so far, the last one first. -/
  children : List Node

/-- The element, closed. -/
def OpenElement.close (e : OpenElement) : Node := .element e.name e.attributes e.children.reverse

/-- A tree that is being built. -/
structure Builder where
  /-- The open elements, the innermost first. -/
  stack : List OpenElement
  /-- The nodes around which no element is open, the last one first. -/
  done : List Node
  /-- Text that has been read since the last node. -/
  pending : Text
  /-- The names of void elements for which no closing tag has come yet. -/
  owed : List Text

namespace Builder

/-- Nothing read. -/
def empty : Builder := ⟨[], [], [], []⟩

/-- Adds a node inside the innermost open element. -/
def add (b : Builder) (node : Node) : Builder :=
  match b.stack with
  | [] => { b with done := node :: b.done }
  | e :: outer => { b with stack := { e with children := node :: e.children } :: outer }

/-- The elements that keep white space as it is. -/
def preservingNames : List Text := ["pre", "textarea"]

/-- White space is kept as it is. -/
def preserves (b : Builder) : Bool := b.stack.any fun e => e.name ∈ preservingNames

/-- White space that stands alone is a line feed or a space, unless it has to be kept. -/
def settle (b : Builder) (s : Text) : Text :=
  if b.preserves || !s.all (fun c => c ∈ (" \t\n\x0c\r" : Text)) then s
  else if s.containsPoint '\n' then "\n" else " "

/-- The kind of text at this place. -/
def kind (b : Builder) : TextKind := (b.stack.findSome? fun e => TextKind.ofName? e.name).getD .plain

/-- Makes a node of the text that has been read. -/
def flush (b : Builder) : Builder :=
  if b.pending.isEmpty then b
  else { b with pending := [] }.add (.text b.kind (b.settle b.pending))

/-- Closes the innermost open elements, as many as `count`. -/
def pop (b : Builder) : (count : Nat) → Builder
  | 0 => b
  | count + 1 => match b.stack with
    | [] => b
    | e :: outer => ({ b with stack := outer }.add e.close).pop count

/-- Closes the nearest open element of a name, if there is one. -/
def close (b : Builder) (name : Text) : Builder :=
  let b := b.flush
  match b.stack.findIdx? (·.name == name) with
  | some depth => b.pop (depth + 1)
  | none => b

/-- A closing tag: it is owed to a void element, or it closes an element. -/
def closeTag (b : Builder) (name : Text) : Builder :=
  if name ∈ b.owed then { b with owed := b.owed.erase name } else b.close name

/-- What an event does to the tree. -/
def apply (b : Builder) : Event → Builder
  | .text content => { b with pending := b.pending ++ content }
  | .markup kind content =>
    let b := b.flush
    b.add (.markup kind (b.settle content))
  | .closing name => b.closeTag name
  | .opening name attributes selfClosed =>
    let b := b.flush
    let b := { b with stack := ⟨name, attributes, []⟩ :: b.stack }
    if selfClosed then b.closeTag name
    else if isVoid name then
      let b := b.close name
      { b with owed := name :: b.owed }
    else b

/-- The tree, with everything closed that is still open. -/
def finish (b : Builder) : List Node :=
  let b := b.flush
  (b.pop b.stack.length).done.reverse

end Builder

/-- The nodes that the events of a page make. -/
def Node.ofEvents (events : List Event) : List Node := (events.foldl Builder.apply .empty).finish

/-- The tree of a page. -/
def Node.parse (page : Text) : Except Rejection (List Node) := (events page).map Node.ofEvents

end EquationExport.Html
