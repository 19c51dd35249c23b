import EquationExport.Xml.Scope

/-!
# Reading markup

A reader goes through the written content of a root element, token by token, with the elements that are
open on a stack. Content that is not well-formed gives no tree.

White space that only lays the markup out is left out. A stretch of text counts as layout if it is
blank, a tag or the like follows it, and its surroundings do not speak against it: no `xml:space` that
keeps it, no text next to it or at the start of the element, no other text met in the element before, and not
the whole content of an element.
-/

namespace EquationExport.Xml

/-- How white space is treated in an open element. -/
inductive Spacing where
  /-- Layout is left out. -/
  | layout
  /-- Text was met among the children, so all white space counts. -/
  | mixed
  /-- Layout is left out, whatever text is met. -/
  | declaredLayout
  /-- All white space counts, here and inside. -/
  | preserve
  deriving DecidableEq

/-- How white space is treated in a new child. -/
def Spacing.inside : Spacing → Spacing
  | .mixed => .layout
  | spacing => spacing

/-- What has been read of an element's content. -/
inductive Piece where
  | text (t : Text)
  | node (n : Node)

/-- A piece of text. -/
def Piece.isText : Piece → Bool
  | .text _ => true
  | .node _ => false

/-- The text at the front of some content and the nodes in it, each with the text that follows it. -/
def assemble : List Piece → Option Text × List Node
  | [] => (none, [])
  | .text t :: rest =>
    let (text, nodes) := assemble rest
    (some (t ++ text.getD []), nodes)
  | .node n :: rest =>
    let (text, nodes) := assemble rest
    (none, n.withTail (text.getD []) :: nodes)

/-- An element that is open. -/
structure Frame where
  written : WrittenName
  tag : Tag
  scope : Scope
  spacing : Spacing
  /-- The content so far, the latest piece first. -/
  pieces : List Piece

namespace Frame

/-- A piece more. -/
def push (f : Frame) (p : Piece) : Frame := { f with pieces := p :: f.pieces }

/-- The element with the content so far. -/
def close (f : Frame) : Node :=
  let (text, nodes) := assemble f.pieces.reverse
  .element f.tag text nodes []

/-- A blank stretch of text that a tag or the like follows is layout at this place. -/
def leavesOut (f : Frame) (following : Text) : Bool :=
  f.spacing != .preserve && f.spacing != .mixed &&
    (match f.pieces.head?, f.pieces.getLast? with
    | some latest, some first => !latest.isText && !first.isText
    | _, _ => !(following.isEmpty || following.startsWith "</"))

/-- Takes up a stretch of text; `following` is what comes behind it. -/
def addText (f : Frame) (t following : Text) : Frame :=
  let atMarkup := following.isEmpty || following.startsWith "<"
  if t.all (·.isBlank) && atMarkup && f.leavesOut following then f
  else { f with
    pieces := .text t :: f.pieces
    spacing := if f.spacing = .layout then .mixed else f.spacing }

end Frame

/-- The elements that are open, the innermost apart. -/
structure Reader where
  innermost : Frame
  outer : List Frame

/-- The most elements that may be open at a time. -/
def maxDepth : Nat := 256

/-- The treatment of white space that an attribute asks for. -/
def Tag.spacing (tag : Tag) (inherited : Spacing) : Spacing :=
  match tag.attribute? spaceAttribute with
  | some value =>
    if value = "preserve" then .preserve else if value = "default" then .declaredLayout else inherited
  | none => inherited

namespace Reader

/-- Takes up a piece of content. -/
def push (r : Reader) (p : Piece) : Reader := { r with innermost := r.innermost.push p }

/-- Opens an element, and closes it at once if its tag says so. -/
def openElement? (r : Reader) (written : WrittenTag) : Option Reader :=
  if maxDepth ≤ r.outer.length + 1 then none
  else match resolve? r.innermost.scope written with
    | none => none
    | some (tag, scope) =>
      let spacing := tag.spacing r.innermost.spacing.inside
      let f : Frame := ⟨written.name, tag, scope, spacing, []⟩
      if written.closed then some (r.push (.node f.close))
      else some ⟨f, r.innermost :: r.outer⟩

/-- Closes the innermost element, which is never the root. -/
def closeElement? (r : Reader) (name : WrittenName) : Option Reader :=
  match r.outer with
  | [] => none
  | f :: outer => if r.innermost.written = name then some ⟨f.push (.node r.innermost.close), outer⟩ else none

/-- Reads the token behind `<`. -/
def readMarkup? (r : Reader) (s : Text) : Option (Reader × Text) :=
  match s.dropOneOf? ["!--", "![CDATA[", "!", "?", "/"] with
  | none => do
    let (tag, rest) ← openingTag? s
    return (← r.openElement? tag, rest)
  | some (mark, s) =>
    if mark = "!--" then
      (comment? s).map fun (content, rest) => (r.push (.node (.comment content [])), rest)
    else if mark = "![CDATA[" then
      (until? "]]>" s).map fun (content, rest) => (r.push (.text content), rest)
    else if mark = "?" then
      (instruction? s).map fun ((target, content), rest) =>
        (r.push (.node (.instruction target content [])), rest)
    else if mark = "/" then do
      let (name, rest) ← closingTag? s
      return (← r.closeElement? name, rest)
    else none

/-- Reads one token. -/
def step? (r : Reader) (s : Text) : Option (Reader × Text) :=
  match s.dropPrefix? "<", s.dropPrefix? "&" with
  | some rest, _ => r.readMarkup? rest
  | none, some rest => (reference? rest).map fun (c, rest) => (r.push (.text [c]), rest)
  | none, none =>
    let (t, rest) := s.span fun c => c != '<' && c != '&'
    if isLegal t && !t.contains "]]>" then
      some ({ r with innermost := r.innermost.addText (normalizeLineEnds t) rest }, rest)
    else none

/-- Reads to the end. Every token takes up some of the text, so its length is fuel enough. -/
def run? : Nat → Reader → Text → Option Reader
  | _, r, [] => some r
  | 0, _, _ :: _ => none
  | fuel + 1, r, c :: s => match r.step? (c :: s) with
    | some (r, rest) => run? fuel r rest
    | none => none

end Reader

/-- The text at the front of the content of a root element, and its children. -/
def readContent? (root : Tag) (scope : Scope) (s : Text) : Option (Option Text × List Node) :=
  let start : Frame := ⟨(none, root.name.localPart), root, scope, .layout, []⟩
  match Reader.run? s.length ⟨start, []⟩ s with
  | some ⟨f, []⟩ => some (assemble f.pieces.reverse)
  | _ => none

end EquationExport.Xml
