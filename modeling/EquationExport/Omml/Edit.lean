import EquationExport.Omml.Construct
import EquationExport.Xml.Live
import EquationExport.Xml.Writer

/-!
# Editing a fragment

Steps by which a fragment is built up: a construct appended, a property set, a span of children replaced.
Positions count from the start or, if negative, from the end. In a live tree a span is replaced, or collapsed
into one node that is built from it, by taking its children out and putting the new ones in one at a time.
-/

namespace EquationExport

open Xml

namespace Omml

/-! ### Spans -/

variable {α : Type}

/-- A position as a number of children from the start, at most `length`. -/
def position (length : Nat) (index : Int) : Nat :=
  min length (if index < 0 then (length + index).toNat else index.toNat)

/-- The elements from `start` up to `stop`. -/
def slice (start stop : Int) (l : List α) : List α :=
  (l.take (position l.length stop)).drop (position l.length start)

/-- Inserts a child before the one at `index`; a position past either end appends it. -/
def insertChild (index : Int) (new : α) (children : List α) : List α :=
  let length : Int := children.length
  if 0 ≤ index ∧ index < length then
    children.take index.toNat ++ new :: children.drop index.toNat
  else if index < 0 ∧ 0 ≤ length + index then
    children.take (length + index).toNat ++ new :: children.drop (length + index).toNat
  else children ++ [new]

/-- Inserts children one after the other, from `index` on. -/
def insertChildren (index : Int) : List α → List α → List α
  | [], children => children
  | new :: rest, children => insertChildren (index + 1) rest (insertChild index new children)

/-- Removes the children from `start` up to `stop`, and inserts others from `start` on. -/
def replaceSpan (start stop : Int) (new children : List α) : List α :=
  let a := position children.length start
  let b := position children.length stop
  let kept := if a < b then children.take a ++ children.drop b else children
  insertChildren start new kept

end Omml

/-! ### Spans in a live tree -/

namespace Xml.LiveForest

/-- Takes children out of a node, one after the other. -/
def removeAll (p : Identity) : List Identity → LiveForest → Except Refusal LiveForest
  | [], f => .ok f
  | x :: rest, f => do removeAll p rest (← f.remove p x)

/-- Puts nodes among the children of an element one after the other, from `index` on. -/
def insertAll (p : Identity) (index : Int) : List Identity → LiveForest → Except Refusal LiveForest
  | [], f => .ok f
  | x :: rest, f => do insertAll p (index + 1) rest (← f.insert p index x)

/-- Takes the children from `start` up to `stop` out of an element, and puts others in from `start` on. -/
def replaceSpan (f : LiveForest) (p : Identity) (start stop : Int) (new : List Identity) : Except Refusal LiveForest := do
  insertAll p start new (← removeAll p (Omml.slice start stop (f.children p)) f)

/-- What makes one node from others that stand alone; it may change the forest, and move the others into the node. -/
abbrev Build := List Identity → LiveForest → Except Refusal (Identity × LiveForest)

/-- Takes the children from `start` up to `stop` out of an element, and puts what is built from them in their place. -/
def collapse (f : LiveForest) (p : Identity) (start stop : Int) (build : Build) : Except Refusal (Identity × LiveForest) := do
  let span := Omml.slice start stop (f.children p)
  let (built, f) ← build span (← removeAll p span f)
  return (built, ← f.insert p start built)

end Xml.LiveForest

namespace Omml

/-! ### Constructs in a live tree -/

/-- What an element is to hold. -/
inductive Parts where
  | nil
  /-- A node of the forest, which leaves its place. -/
  | moved (x : Identity) (rest : Parts)
  /-- A new tree, which reads as a node. -/
  | copied (node : Node) (rest : Parts)
  /-- A new element around other parts. -/
  | made (name : Text) (inner rest : Parts)

namespace Parts

/-- Nodes that leave their places, in order. -/
def ofMoved : List Identity → Parts
  | [] => nil
  | x :: rest => moved x (ofMoved rest)

/-- New trees in front of other parts. -/
def copies : List Node → Parts → Parts
  | [], parts => parts
  | node :: rest, parts => copied node (copies rest parts)

/-- The nodes that leave their places. -/
def moves : Parts → List Identity
  | nil => []
  | moved x rest => x :: rest.moves
  | copied _ rest => rest.moves
  | made _ inner rest => inner.moves ++ rest.moves

/-- The parts as nodes, given how the nodes of the forest read. -/
def nodes (read : Identity → Node) : Parts → List Node
  | nil => []
  | moved x rest => read x :: rest.nodes read
  | copied node rest => node :: rest.nodes read
  | made name inner rest => mathElement name (inner.nodes read) :: rest.nodes read

/-- What a delimiter construct holds: its properties, and a slot. -/
def delimiter (opening closing : Text) (content : Parts) : Parts :=
  copies (Omml.delimiter opening closing []).children.dropLast (made "e" content nil)

/-- A fraction. -/
def fraction (num den : List Identity) : Parts :=
  made "f" (made "num" (ofMoved num) (made "den" (ofMoved den) nil)) nil

end Parts

end Omml

namespace Xml.LiveForest

open Omml

/-- Puts a node behind the children of an element. -/
def adopt (f : LiveForest) (p x : Identity) : Except Refusal LiveForest := f.insert p (f.children p).length x

/-- Puts parts behind the children of an element, one after the other. -/
def assemble (p : Identity) : Parts → LiveForest → Except Refusal LiveForest
  | .nil, f => .ok f
  | .moved x rest, f => do assemble p rest (← f.adopt p x)
  | .copied node rest, f => do assemble p rest (← (f.grow node).adopt p f.unused)
  | .made name inner rest, f => do
    let g ← assemble f.unused inner (f.grow (mathElement name []))
    assemble p rest (← g.adopt p f.unused)

/-- Builds an element around parts that are chosen from the given nodes. -/
def construct (name : Text) (parts : List Identity → Parts) : Build := fun objects f => do
  let g ← assemble f.unused (parts objects) (f.grow (mathElement name []))
  return (f.unused, g)

end Xml.LiveForest

namespace Omml

/-! ### Steps -/

/-- Why a step was refused. -/
inductive EditFault where
  | unwritable (cause : Unwritable)
  /-- No child stands at the position. -/
  | noSuchChild
  deriving DecidableEq

/-- The wording of a refusal. -/
def EditFault.message : EditFault → Text
  | .unwritable cause => cause.message
  | .noSuchChild => "list index out of range"

/-- A text, if a document can hold it. -/
def checked (s : Text) : Except EditFault Text := (writable s).mapError .unwritable

/-- Runs of text without properties. -/
def runs (texts : List Text) : Except EditFault (List Node) :=
  texts.mapM fun t => (checked t).map plainRun

/-- What can be appended to a fragment; the parts of a construct are given as the texts of their runs. -/
inductive Construct where
  /-- A run; it may copy the first run properties of the fragment. -/
  | run (text : Text) (copyProperties : Bool)
  | fraction (num den : List Text)
  | subscript (base sub : List Text)
  | subSuperscript (base sub sup : List Text)
  | nary (operator : Text) (sub sup base : List Text) (limitLocation : Option Text)
  | delimiter (opening closing : Text) (content : List Text)

/-- The construct as a node, in the fragment it is to be appended to. -/
def Construct.build (f : Fragment) : Construct → Except EditFault Node
  | .run text copyProperties => do
    let text ← checked text
    return Omml.run text (if copyProperties then f.nodes.find? (·.isNamed "rPr") else none)
  | .fraction num den => return Omml.fraction (← runs num) (← runs den)
  | .subscript base sub => return Omml.subscript (← runs base) (← runs sub)
  | .subSuperscript base sub sup =>
    return Omml.subSuperscript (← runs base) (← runs sub) (← runs sup)
  | .nary operator sub sup base limitLocation => do
    let location ← (limitLocation.getD []) |> checked
    return Omml.nary (← checked operator) (← runs sub) (← runs sup) (← runs base) (some location)
  | .delimiter opening closing content =>
    return Omml.delimiter (← checked opening) (← checked closing) (← runs content)

/--
What setting a property to a value does to a construct. If the value is refused, the property is there all the same, and
without a value if it is new.
-/
def assignment (group name value : Text) : (Node → Node) × Option EditFault :=
  match checked value with
  | .ok value => ((·.setProperty group name value), none)
  | .error fault => ((·.ensureProperty group name), some fault)

/-- A step of editing. -/
inductive Edit where
  | append (construct : Construct)
  /-- Sets a property of the child at a position. -/
  | setProperty (index : Int) (group name value : Text)
  /-- Replaces a span of children by runs. -/
  | replace (start stop : Int) (texts : List Text)

namespace Fragment

/-- The place of the child at a position. -/
def childIndex? (f : Fragment) (index : Int) : Except EditFault Nat :=
  let length : Int := f.children.length
  if 0 ≤ index ∧ index < length then .ok index.toNat
  else if index < 0 ∧ 0 ≤ length + index then .ok (length + index).toNat
  else .error .noSuchChild

/-- The value of a property of the child at a position. -/
def property? (f : Fragment) (index : Int) (group name : Text) : Except EditFault (Option Text) :=
  (f.childIndex? index).map fun i => f.children[i]?.bind (·.property? group name)

/--
Does a step of editing. A refused step leaves the fragment as it was, except that a property whose value is
refused is there without a value.
-/
def edit (f : Fragment) : Edit → Fragment × Option EditFault
  | .append construct => match construct.build f with
    | .ok node => ({ f with children := f.children ++ [node] }, none)
    | .error fault => (f, some fault)
  | .setProperty index group name value => match f.childIndex? index with
    | .error fault => (f, some fault)
    | .ok i =>
      let (change, refusal) := assignment group name value
      ({ f with children := f.children.modify i change }, refusal)
  | .replace start stop texts => match runs texts with
    | .ok new => ({ f with children := replaceSpan start stop new f.children }, none)
    | .error fault => (f, some fault)

end Fragment

end Omml

end EquationExport
