import EquationExport.Omml.Repair.Integral
import EquationExport.Omml.Repair.Script

/-!
# Delimiters

Delimiters that are plain runs stay small beside a tall construct. Where a pair of them surrounds one, or a
brace opens before a matrix, they become a delimiter construct, which stretches. A fraction between delimiters
that a converter has flattened is put together again.
-/

namespace EquationExport.Omml.Repair

open Xml

/-! ### Square brackets -/

/--
The place of the bracket that closes the bracket before these objects, counting nested brackets, and
whether a tall construct stands before it. `i` objects stand before these.
-/
def bracketEnd? (depth : Nat) (tall : Bool) (i : Nat) : List Node → Option (Nat × Bool)
  | [] => none
  | node :: rest =>
    if node.glyphs = "[" then bracketEnd? (depth + 1) tall (i + 1) rest
    else if node.glyphs = "]" then
      (match depth with
      | 0 => some (i, tall)
      | depth + 1 => bracketEnd? depth tall (i + 1) rest)
    else bracketEnd? depth (tall || node.isTall) (i + 1) rest

/-- The first pair of brackets with a tall construct between them. -/
def bracketSpan (i : Nat) : List Node → Option Span
  | [] => none
  | node :: rest =>
    if node.glyphs = "[" then
      (match bracketEnd? 0 false (i + 1) rest with
      | some (stop, true) => some ⟨i, stop + 1, fun objects => delimiter "[" "]" (interior objects)⟩
      | _ => bracketSpan (i + 1) rest)
    else bracketSpan (i + 1) rest

/-- Square brackets around tall constructs stretch. -/
def wrapBrackets (f : Fragment) : Fragment := (sweepUntilStable (bracketSpan 0) f).1

/-! ### Braces before matrices -/

/-- The first brace before a matrix, with the closing brace behind it if there is one. -/
def braceSpan (i : Nat) : List Node → Option Span
  | brace :: matrix :: rest =>
    if brace.glyphs = "\x7b" && matrix.isOneOf ["m", "eqArr"] then
      if rest.head?.any fun node => node.glyphs == ("\x7d" : Text) then
        some ⟨i, i + 3, fun objects => delimiter "\x7b" "\x7d" (interior objects)⟩
      else some ⟨i, i + 2, fun objects => delimiter "\x7b" "" (objects.drop 1)⟩
    else braceSpan (i + 1) (matrix :: rest)
  | _ => none

/-- A brace before a matrix stretches; without a closing brace it stays open. -/
def wrapBraces (f : Fragment) : Fragment := (sweepUntilStable (braceSpan 0) f).1

/-! ### Flattened fractions -/

/-- The run that starts a denominator: a one and a plus sign. -/
def isOnePlus (node : Node) : Bool := node.runText?.any fun t => t.filter (· != ' ') == ("1+" : Text)

/-- The number of objects from a sum to the run that closes the brackets, a one and a plus before it included. -/
def denominatorLength? (close : Text) (objects : List Node) : Option Nat :=
  match objects with
  | first :: rest =>
    if isOnePlus first then
      (match rest with
      | sum :: last :: _ => if isNaryOf sumGlyphs sum && last.glyphs == close && last.isRun then some 2 else none
      | _ => none)
    else
      (match rest with
      | last :: _ => if isNaryOf sumGlyphs first && last.glyphs == close && last.isRun then some 1 else none
      | _ => none)
  | [] => none

/-- A fraction of the objects from the second to the third over those from the fourth on, in delimiters. -/
def bracketedFraction (opening closing : Text) (objects : List Node) : Node :=
  delimiter opening closing
    [fraction ((objects.drop 1).take 2) ((objects.drop 3).dropLast)]

/-- The first flattened fraction: an integral and a run, then the denominator, all between delimiters. -/
def fractionSpan (i : Nat) : List Node → Option Span
  | [] => none
  | opening :: rest =>
    let found := match closing? opening.glyphs, rest with
      | some close, integral :: text :: rest =>
        if isNaryOf integralGlyphs integral && text.isRun then
          (denominatorLength? close rest).map fun n =>
            (⟨i, i + 4 + n, bracketedFraction opening.glyphs close⟩ : Span)
        else none
      | _, _ => none
    match found with
    | some span => some span
    | none => fractionSpan (i + 1) rest

/-- Flattened fractions put together again, and whether there was one. -/
def rebuildFractions (f : Fragment) : Fragment × Bool := sweepUntilStable (fractionSpan 0) f

/-! ### Delimiters around one tall construct -/

/-- The first pair of delimiters with one tall construct between them. -/
def promotionSpan (i : Nat) : List Node → Option Span
  | opening :: tall :: last :: rest =>
    match closing? opening.glyphs with
    | some close =>
      if tall.isTall && last.isRun && last.glyphs == close then
        some ⟨i, i + 3, fun objects => delimiter opening.glyphs close (interior objects)⟩
      else promotionSpan (i + 1) (tall :: last :: rest)
    | none => promotionSpan (i + 1) (tall :: last :: rest)
  | _ => none

/-- Delimiters around one tall construct stretch. -/
def promoteDelimiters (f : Fragment) : Fragment := (sweepUntilStable (promotionSpan 0) f).1

end EquationExport.Omml.Repair
