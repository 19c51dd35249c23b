import EquationExport.Text.Substitution

/-!
# LaTeX commands

A *control word* is a backslash with a run of ASCII letters after it, taken as long as it goes. A *control
symbol* is a backslash with one other character; a backslash that is itself the second character of
`\\` (the row separator) does not start one.
-/

namespace EquationExport.Latex

/-- The control word at the front: its letters, and what follows them. -/
def controlWord? (s : Text) : Option (Text × Text) :=
  match s.dropPrefix? "\\" with
  | none => none
  | some r =>
    let (word, rest) := r.span (·.isAsciiLetter)
    if word.isEmpty then none else some (word, rest)

/-- What follows a control word that is one of `words`. -/
def skipWord? (words : List Text) (s : Text) : Option Text :=
  match controlWord? s with
  | some (word, rest) => if word ∈ words then some rest else none
  | none => none

/-- What follows a backslash and one of the given characters, if no backslash stands before them. -/
def skipSymbol? (symbols : Text) (before : Option CodePoint) (s : Text) : Option Text :=
  if before = some '\\' then none
  else match s.dropPrefix? "\\" with
    | some (c :: rest) => if c ∈ symbols then some rest else none
    | _ => none

/-- The words that give a delimiter a size: `\big` and its larger forms, for either side or the middle. -/
def sizeWords : List Text :=
  ["big", "Big", "bigg", "Bigg"].flatMap fun size : String =>
    ["", "l", "r", "m"].map fun side : String => (size ++ side : Text)

/-- The words that choose the style in which mathematics is set. -/
def styleWords : List Text := ["displaystyle", "textstyle", "scriptstyle", "scriptscriptstyle"]

/-- The words for wide spaces. -/
def spaceWords : List Text := ["qquad", "quad"]

/-- The words for fractions of a fixed style. -/
def fractionWords : List Text := ["dfrac", "tfrac"]

/-- Deletes the given words together with the white space after them. -/
def deleteWords (words : List Text) (s : Text) : Text :=
  s.substitute (Text.deleting fun r => (skipWord? words r).map (·.trimStart))

/-- Wide and narrow spaces become a plain space. -/
def plainSpacing (s : Text) : Text :=
  s.substitute fun before r =>
    ((skipWord? spaceWords r).or (skipSymbol? ",;:" before r)).map ((" " : Text), ·)

/-- Deletes the negative space `\!`. -/
def deleteNegativeSpace (s : Text) : Text :=
  s.substitute fun before r => (skipSymbol? "!" before r).map ([], ·)

/-- Fractions of a fixed style become plain fractions. -/
def plainFractions (s : Text) : Text :=
  s.substitute (Text.replacing (skipWord? fractionWords) "\\frac")

end EquationExport.Latex
