import EquationExport.Latex.Command
import EquationExport.Text.Substitution

/-!
# LaTeX in normal form

Before MathML is made from the source of a formula, the source is freed of what the making would get
wrong: math delimiters, matrix environments with delimiters of their own, sizes, styles and spacing
commands, and the styled variants of fractions.
-/

namespace EquationExport.Latex

/-!
### Math delimiters

Source text of a formula may come with the delimiters that set it off from running text: two dollar
signs, `\[` and `\]`, `\(` and `\)`, or one dollar sign. One pair is taken off, the first of that list
that stands at both ends.
-/

/-- The pairs of math delimiters, in the order in which they are tried. -/
def mathDelimiters : List (Text × Text) :=
  [("$$", "$$"), ("\\[", "\\]"), ("\\(", "\\)"), ("$", "$")]

/-- What stands between two delimiters at the ends of a text, if they do not overlap. -/
def between? (opening closing s : Text) : Option Text :=
  if opening.length + closing.length ≤ s.length ∧ s.startsWith opening ∧ s.endsWith closing then
    some ((s.drop opening.length).take (s.length - opening.length - closing.length))
  else none

/-- The text without the white space and without one pair of math delimiters around it. -/
def stripMathDelimiters (s : Text) : Text :=
  let s := s.trim
  match mathDelimiters.findSome? fun (opening, closing) => between? opening closing s with
  | some inner => inner.trim
  | none => s

/-!
### Matrix environments

Environments such as `bmatrix` set a matrix between delimiters of their own. They are expanded to the
plain `matrix` environment between `\left` and `\right`, which keeps the delimiters stretchy. An
environment reaches to the first `\end` of its own name, so an environment of another name inside is found
in a later round; rounds go on until nothing changes, sixteen at most.
-/

/-- An environment that sets a matrix, with the delimiters it puts around it. -/
structure MatrixKind where
  name : Text
  /-- What follows `\left` and `\right`; nothing for an environment without delimiters. -/
  delimiters : Option (Text × Text)

/-- The environments that are expanded. -/
def matrixKinds : List MatrixKind := [
  ⟨"bmatrix", some ("[", "]")⟩,
  ⟨"pmatrix", some ("(", ")")⟩,
  ⟨"Bmatrix", some ("\\\x7b", "\\\x7d")⟩,
  ⟨"vmatrix", some ("|", "|")⟩,
  ⟨"Vmatrix", some ("\\|", "\\|")⟩,
  ⟨"smallmatrix", none⟩,
  ⟨"cases", some ("\\\x7b", ".")⟩]

/-- What follows the opening of an environment, its name in braces, at the front. -/
def skipOpening? (name s : Text) : Option Text :=
  s.dropPrefix? ("\\begin\x7b" ++ name ++ "\x7d")

/-- The end of an environment. -/
def closing (name : Text) : Text := "\\end\x7b" ++ name ++ "\x7d"

/-- What follows an argument in square brackets; it reaches to the first closing bracket. -/
def skipArgument? (s : Text) : Option Text :=
  match s.dropPrefix? "[" with
  | some r => (r.breakOn? "]").map (·.2)
  | none => none

/--
The body of an environment, after its opening, and what follows its end. An argument in square brackets
is not part of the body, unless the end of the environment stands inside the brackets.
-/
def body? (name afterOpening : Text) : Option (Text × Text) :=
  ((skipArgument? afterOpening).bind (·.breakOn? (closing name))).or
    (afterOpening.breakOn? (closing name))

/-- The plain matrix with the given body, between the delimiters of its kind. -/
def MatrixKind.render (kind : MatrixKind) (body : Text) : Text :=
  let inner : Text := "\\begin\x7bmatrix\x7d" ++ body ++ "\\end\x7bmatrix\x7d"
  match kind.delimiters with
  | none => inner
  | some (left, right) => "\\left" ++ left ++ inner ++ "\\right" ++ right

/-- The environment of one kind at the front, expanded. Its name may carry a star, on both ends alike. -/
def MatrixKind.expand? (kind : MatrixKind) (s : Text) : Option (Text × Text) :=
  [kind.name, kind.name ++ ("*" : Text)].findSome? fun name =>
    ((skipOpening? name s).bind (body? name)).map fun (body, rest) => (kind.render body, rest)

/-- The matrix environment at the front, expanded. -/
def expandMatrix? (s : Text) : Option (Text × Text) :=
  if s.startsWith "\\begin\x7b" then matrixKinds.findSome? (·.expand? s) else none

/-- One round: every outermost environment is expanded. -/
def expandMatricesOnce (s : Text) : Text := s.substitute fun _ => expandMatrix?

/-- Rounds until nothing changes, `rounds` at most. -/
def expandMatricesFor : Nat → Text → Text
  | 0, s => s
  | rounds + 1, s =>
    let t := expandMatricesOnce s
    if t = s then s else expandMatricesFor rounds t

/-- The most rounds of expansion. -/
def maxMatrixRounds : Nat := 16

/-- Every matrix environment expanded to a plain matrix between stretchy delimiters. -/
def expandMatrixEnvironments (s : Text) : Text := expandMatricesFor maxMatrixRounds s

/-- The environments whose presence marks a formula as a matrix. -/
def matrixMarkers : List Text :=
  ["matrix", "pmatrix", "bmatrix", "Bmatrix", "vmatrix", "Vmatrix", "smallmatrix", "cases", "array"]

/-- The opening of a matrix environment, its name with or without a star, stands at the front. -/
def skipMatrixMarker? (s : Text) : Option Text :=
  if s.startsWith "\\begin\x7b" then
    matrixMarkers.findSome? fun name =>
      (skipOpening? name s).or (skipOpening? (name ++ ("*" : Text)) s)
  else none

/-- The source opens a matrix environment somewhere. -/
def hasMatrixEnvironment (s : Text) : Bool := s.holds skipMatrixMarker?

/-! ### The normal form -/

/-- What follows a stretch of two or more spaces and tabs. -/
def skipWideGap? (s : Text) : Option Text :=
  let (gap, rest) := s.span fun c => c == ' ' || c == '\t'
  if 2 ≤ gap.length then some rest else none

/-- The source of a formula in normal form. -/
def normalize (s : Text) : Text :=
  let s := expandMatrixEnvironments (stripMathDelimiters s)
  let s := deleteWords styleWords (deleteWords sizeWords s)
  let s := plainFractions (deleteNegativeSpace (plainSpacing s))
  (s.substitute (Text.replacing skipWideGap? " ")).trim

end EquationExport.Latex
