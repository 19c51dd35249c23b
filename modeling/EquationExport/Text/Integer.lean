import EquationExport.Text.Digit
import EquationExport.Text.Quoted
import EquationExport.Text.Search

/-!
# Reading integers

An integer is written with decimal digits of any script, with a sign in front if wanted, and with single
underscores between digits. White space around it does not matter, but the information separators do not
count as white space here.
-/

namespace EquationExport.Text

/-- A text that writes no integer. -/
structure NotInteger where
  written : Text
  deriving DecidableEq

/-- The wording of the refusal; of a long text, only the front is shown. -/
def NotInteger.message (e : NotInteger) : Text :=
  "invalid literal for int() with base 10: " ++ e.written.quoted.take 200

/-- White space that may stand around an integer. -/
def isPadding (c : CodePoint) : Bool := c.isSpace && !c.inRange 0x1C 0x1F

/--
The number that digits write, added to `n` read before. `afterDigit` says that the last code point was a
digit, so that an underscore or the end may come.
-/
def digitsFrom? (n : Nat) (afterDigit : Bool) : Text → Option Nat
  | [] => if afterDigit then some n else none
  | c :: s =>
    if c = '_' then (if afterDigit then digitsFrom? n false s else none)
    else match c.digit? with
      | some d => digitsFrom? (n * 10 + d) true s
      | none => none

/-- The integer that a text without padding writes. -/
def signed? (s : Text) : Option Int :=
  match s with
  | [] => none
  | c :: r =>
    if c = '-' then (digitsFrom? 0 false r).map fun n => -(n : Int)
    else if c = '+' then (digitsFrom? 0 false r).map Int.ofNat
    else (digitsFrom? 0 false s).map Int.ofNat

/-- The integer that a text writes. -/
def integer? (s : Text) : Option Int :=
  signed? ((s.dropWhile isPadding).reverse.dropWhile isPadding).reverse

/-- The integer that a text writes, or the refusal. -/
def readInteger (s : Text) : Except NotInteger Int :=
  match s.integer? with
  | some n => .ok n
  | none => .error ⟨s⟩

end EquationExport.Text
