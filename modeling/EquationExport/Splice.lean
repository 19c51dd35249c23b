import EquationExport.Placeholder
import EquationExport.Text.Alphanumeric
import EquationExport.Text.Clean
import EquationExport.Text.Digit
import EquationExport.Text.Substitution
import EquationExport.Xml.NameCharacter

/-!
# Splicing equations into a written document

The written document is text. Each token is looked up in it, the run around the token is cut out, and the
equation's markup is put in its place. A token that is not found, or that stands outside every run, is
left alone.
-/

namespace EquationExport

namespace Splice

/-! ### The namespace of the document -/

/-- The document tag at the front: its attributes, and what follows it. -/
def documentTag? (s : Text) : Option (Text × Text) :=
  match s.dropPrefix? "<w:document" with
  | some r => if r.atWordEnd then r.breakOn? ">" else none
  | none => none

/-- Declares the namespace of equation markup on the document tag, unless it is declared there. -/
def declareMathNamespace (document : Text) : Text :=
  match Text.breakAt? documentTag? document with
  | some (before, attributes, rest) =>
    if attributes.contains "xmlns:m=" then document
    else before ++ ("<w:document" : Text) ++ attributes ++ (" xmlns:m=\"" : Text) ++ mathNamespace ++
      ("\">" : Text) ++ rest
  | none => document

/-! ### The markup of an equation -/

/-- What follows a declaration of the prefix `m` or `w`, with the white space before it. -/
def skipDeclaration? (s : Text) : Option Text :=
  match s with
  | [] => none
  | c :: _ =>
    if c.isSpace then do
      let (_, r) ← s.trimStart.dropOneOf? ["xmlns:m=\"", "xmlns:w=\""]
      (r.breakOn? "\"").map (·.2)
    else none

/-- One or more code points of a class and a semicolon stand at the front. -/
def startsReferenceOf (digit : CodePoint → Bool) (s : Text) : Bool :=
  let (digits, rest) := s.span digit
  !digits.isEmpty && rest.startsWith ";"

/-- What follows an ampersand makes it a reference: one of the five names, or a number. -/
def startsReference (s : Text) : Bool :=
  (s.dropOneOf? ["amp;", "lt;", "gt;", "quot;", "apos;"]).isSome ||
    ((s.dropPrefix? "#").any (startsReferenceOf (·.isDigit)) ||
      (s.dropPrefix? "#x").any (startsReferenceOf (·.isHexDigit)))

/-- An ampersand that starts no reference is escaped. -/
def escapeAmpersand? (s : Text) : Option (Text × Text) :=
  match s.dropPrefix? "&" with
  | some rest => if startsReference rest then none else some ("&amp;", rest)
  | none => none

/-- Markup that can stand in a document: clean text, no declarations, no stray ampersands. -/
def sanitizeOmml (omml : Text) : Text :=
  (omml.sanitize.substitute (Text.deleting skipDeclaration?)).substitute fun _ => escapeAmpersand?

/-- The markup inside an equation element, and inside a paragraph of equations for display mode. -/
def wrapOmml (omml : Text) (display : Bool) : Text :=
  let body := omml.trim
  let body := if body.startsWith "<m:oMath" then body
    else ("<m:oMath>" : Text) ++ body ++ ("</m:oMath>" : Text)
  if display && !body.startsWith "<m:oMathPara" then
    ("<m:oMathPara>" : Text) ++ body ++ ("</m:oMathPara>" : Text)
  else body

/-! ### The run around a position -/

/-- The search looked at the character after an opening that ends the text. -/
inductive RunFault where
  | pastEnd
  deriving DecidableEq

/-- The wording of the fault. -/
def RunFault.message : RunFault → Text
  | .pastEnd => "string index out of range"

/-- Every place where `<w:r` stands, counted from `position`, with what follows it. -/
def runStarts (position : Nat) : Text → List (Nat × Text)
  | [] => []
  | c :: s => match Text.dropPrefix? (c :: s) "<w:r" with
    | some rest => (position, rest) :: runStarts (position + 1) s
    | none => runStarts (position + 1) s

/-- The first of the places at which a run opens: the name `w:r` ends there. -/
def firstRun? : List (Nat × Text) → Except RunFault (Option Nat)
  | [] => .ok none
  | (_, []) :: _ => .error .pastEnd
  | (position, c :: _) :: rest => if c = ' ' ∨ c = '>' then .ok (some position) else firstRun? rest

/-- A position as a number of code points from the start; a negative one counts from the end. -/
def fromStart (length : Nat) (index : Int) : Nat :=
  if index < 0 then (length + index).toNat else index.toNat

/--
The bounds of the run around a position: the last run that opens before it, up to the first end of a run
after that opening, if this end does not come before the position.
-/
def enclosingRun? (document : Text) (index : Int) : Except RunFault (Option (Nat × Nat)) := do
  let limit := fromStart document.length index
  let starts := (runStarts 0 document).filter fun start => start.1 + 4 ≤ limit
  match ← firstRun? starts.reverse with
  | none => return none
  | some start => match Text.find? (document.drop start) "</w:r>" with
    | none => return none
    | some length =>
      let stop := start + length
      return if (stop : Int) < index then none else some (start, stop + 6)

/-! ### Splicing -/

/-- Puts one equation in place of the run around its token. -/
def spliceOne (document : Text) (r : Replacement) : Except RunFault Text := do
  match document.find? r.token with
  | none => return document
  | some index => match ← enclosingRun? document index with
    | none => return document
    | some (start, stop) =>
      return document.take start ++ wrapOmml (sanitizeOmml r.omml) r.display ++ document.drop stop

/-- Puts the equations in place of their tokens, one after the other. -/
def spliceAll (document : Text) (replacements : List Replacement) : Except RunFault Text :=
  if replacements.isEmpty then .ok document
  else replacements.foldlM spliceOne (declareMathNamespace document)

/-- The document after each of the replacements, spliced one by one. -/
def spliceSteps : Text → List Replacement → Except RunFault (List Text)
  | _, [] => .ok []
  | document, r :: rest => do
    let next ← spliceAll document [r]
    return next :: (← spliceSteps next rest)

end Splice

end EquationExport
