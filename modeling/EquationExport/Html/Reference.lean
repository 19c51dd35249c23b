import EquationExport.Html.EntityTable
import EquationExport.Text.Digit
import EquationExport.Text.Substitution

/-!
# Character references of HTML

References by number and by name. In text, a name is read as far as it goes. In attribute values, the
longest known name at the front of what is written counts.
-/

namespace EquationExport.Html

/-- The number that hexadecimal digits write. -/
def hexNumber (s : Text) : Nat := s.foldl (fun n c => n * 16 + c.hexDigit?.getD 0) 0

/-- The number that decimal digits write. -/
def decimalNumber (s : Text) : Nat := s.foldl (fun n c => n * 10 + (c.val - 0x30)) 0

/-- An entry of the table of names. -/
def readEntity (entry : Text) : Text × Text :=
  match Text.splitOn ' ' entry with
  | [] => ([], [])
  | name :: points => (name, points.map fun p => CodePoint.ofNat (hexNumber p))

/-- The named characters. -/
def entities : List (Text × Text) :=
  entityLines.flatMap fun line => (Text.splitOn (CodePoint.ofChar ',') (Text.ofString line)).map readEntity

/-- The characters that a name stands for. -/
def entity? (name : Text) : Option Text := (entities.find? (·.1 == name)).map (·.2)

/-- The names that need no semicolon. -/
def bareNames : List Text := Text.ofStrings bareEntityNames

/-- What the numbers from 128 to 159 stand for; five of them have no other meaning than their own. -/
def windowsPoints : List Nat := [
  0x20AC, 0x81, 0x201A, 0x192, 0x201E, 0x2026, 0x2020, 0x2021, 0x2C6, 0x2030, 0x160, 0x2039, 0x152, 0x8D,
  0x17D, 0x8F, 0x90, 0x2018, 0x2019, 0x201C, 0x201D, 0x2022, 0x2013, 0x2014, 0x2DC, 0x2122, 0x161, 0x203A,
  0x153, 0x9D, 0x17E, 0x178]

/-- The character with a number; zero, surrogates and numbers out of range give the replacement character. -/
def characterOf (n : Nat) : CodePoint :=
  if n = 0 then .replacement
  else if 0x80 ≤ n ∧ n ≤ 0x9F then CodePoint.ofNat (windowsPoints.getD (n - 0x80) n)
  else
    let c := CodePoint.ofNat n
    if c.isSurrogate then .replacement else c

/-- The number of a numeric reference; the text starts behind `&#`. What follows the digits is returned. -/
def number? (s : Text) : Option (Nat × Text) :=
  match s.dropOneOf? ["x", "X"] with
  | some (_, r) =>
    let (digits, rest) := r.span (·.isHexDigit)
    if digits.isEmpty then none else some (hexNumber digits, rest)
  | none =>
    let (digits, rest) := s.span (·.isAsciiDigit)
    if digits.isEmpty then none else some (decimalNumber digits, rest)

/-- The text without a semicolon at its front. -/
def skipSemicolon (s : Text) : Text := (s.dropPrefix? ";").getD s

/-! ### In text -/

/--
A numeric reference in text; the text starts behind `&#`. Its digits have to be followed by some
character that is no hexadecimal digit.
-/
def numericReference? (s : Text) : Option (Text × Text) :=
  match number? s with
  | some (n, c :: rest) =>
    if c.isHexDigit then none else some ([characterOf n], skipSemicolon (c :: rest))
  | _ => none

/-- May stand in a name. -/
def isNamePart (c : CodePoint) : Bool := c.isAsciiLetter || c.isAsciiDigit || c == '-' || c == '.'

/--
The name of a reference, which some character that is no letter or digit has to follow. At the end of the
input a hyphen or a dot of the name does.
-/
def referenceName? (s : Text) : Option (Text × Text) :=
  match s.span isNamePart with
  | ([], _) => none
  | (c :: name, rest) =>
    if !c.isAsciiLetter then none
    else if !rest.isEmpty then some (c :: name, rest)
    else
      let after := name.reverse.takeWhile fun c => c.isAsciiLetter || c.isAsciiDigit
      match name.reverse.drop after.length with
      | mark :: before => some (c :: before.reverse, mark :: after.reverse)
      | [] => none

/--
A reference by name in text; the text starts behind the ampersand. A name that is not known stays as it is
written, without its semicolon.
-/
def namedReference? (s : Text) : Option (Text × Text) :=
  match referenceName? s with
  | some (name, rest) => some ((entity? name).getD ("&" ++ name), skipSemicolon rest)
  | none => none

/-! ### In attribute values -/

/-- A code point that no reference in an attribute value can give. -/
def isExcluded (n : Nat) : Bool :=
  (1 ≤ n && n ≤ 8) || n == 0x0B || (0x0E ≤ n && n ≤ 0x1F) || n == 0x7F || (0xFDD0 ≤ n && n ≤ 0xFDEF) ||
    (n % 0x10000 == 0xFFFE || n % 0x10000 == 0xFFFF)

/-- The longest front of a name, two letters or more and `length` at most, that needs no semicolon. -/
def barePrefix? (name : Text) : Nat → Option (Text × Text)
  | 0 => none
  | 1 => none
  | length + 1 =>
    let front : Text := name.take (length + 1)
    match (if bareNames.contains front then entity? front else none) with
    | some characters => some (characters, name.drop (length + 1))
    | none => barePrefix? name length

/-- What a name in an attribute value stands for; `closed` says that a semicolon follows it. -/
def expandName (name : Text) (closed : Bool) : Text :=
  let written : Text := if closed then name ++ (";" : Text) else name
  match (if closed || bareNames.contains name then entity? name else none) with
  | some characters => characters
  | none => match barePrefix? written (written.length - 1) with
    | some (characters, rest) => characters ++ rest
    | none => "&" ++ written

/-- May stand in a name in an attribute value. -/
def isLooseNamePart (c : CodePoint) : Bool := !(c ∈ ("\t\n\x0c <&#;" : Text))

/-- A reference in an attribute value. -/
def valueReference? (s : Text) : Option (Text × Text) :=
  match s.dropPrefix? "&" with
  | none => none
  | some r => match r.dropPrefix? "#" with
    | some digits => (number? digits).map fun (n, rest) =>
      (if isExcluded n then [] else [characterOf n], skipSemicolon rest)
    | none =>
      let name : Text := (r.takeWhile isLooseNamePart).take 32
      let rest : Text := r.drop name.length
      if name.isEmpty then none
      else match rest.dropPrefix? ";" with
        | some rest => some (expandName name true, rest)
        | none => some (expandName name false, rest)

/-- An attribute value with its references resolved. -/
def resolveValue (s : Text) : Text := s.substitute fun _ => valueReference?

end EquationExport.Html
