import EquationExport.Html.Reference
import EquationExport.Text.Case

/-!
# Attributes in an opening tag

Reading what stands in an opening tag behind its name. Attributes are kept apart by white space and
slashes. A value follows one or more equals signs, in quotes or bare. A quote that is never closed is no
quote: what stands before it may still make a value of its own, and the quote begins the name of the next
attribute.
-/

namespace EquationExport.Html

/-- White space or a slash, the slash of `/>` excepted, is skipped; also returned is the code point before the rest. -/
def skipGap (before : CodePoint) : Text → CodePoint × Text
  | [] => (before, [])
  | c :: s =>
    if c.isSpace || (c == '/' && !Text.startsWith s ">") then skipGap c s else (before, c :: s)

/-- The first code point of an attribute's name, given the one before it. -/
def startsAttribute (before c : CodePoint) : Bool :=
  (before == '"' || before == '\'' || before == '/' || before.isSpace) &&
    !(c.isSpace || c == '/' || c == '>')

/-- A later code point of an attribute's name. -/
def isAttributePart (c : CodePoint) : Bool := !(c.isSpace || c == '/' || c == '=' || c == '>')

/-- May stand in a bare value. -/
def isBarePart (c : CodePoint) : Bool := !(c.isSpace || c == '>')

/-- The end of a bare value, and what follows it. -/
def bareValue (s : Text) : Text × Text := s.span isBarePart

/--
A value behind equals signs, as many as `signs` has; also returned is what follows. Nothing if a quote that
is never closed leaves no value.
-/
def valueBehind? (signs s : Text) : Option (Text × Text) :=
  let (spaces, r) := s.span (·.isSpace)
  match r with
  | c :: body =>
    if c == '"' || c == '\'' then
      match Text.breakOn? body [c] with
      | some (value, rest) => some (value, rest)
      | none =>
        if !spaces.isEmpty then some ([], r)
        else if signs.length ≥ 2 then some (bareValue ((CodePoint.ofChar '=') :: r))
        else none
    else some (bareValue r)
  | [] => some ([], [])

/-- The value behind an attribute's name, if there is one. -/
def value? (s : Text) : Option (Text × Text) :=
  let (signs, r) := s.trimStart.span (· == '=')
  if signs.isEmpty then none else valueBehind? signs r

/-- The code point before what a reader left, which is the end of the text it was given. -/
def before (before : CodePoint) (s rest : Text) : CodePoint :=
  match s.take (s.length - rest.length) with
  | [] => before
  | c :: taken => (c :: taken).getLast (List.cons_ne_nil c taken)

/-- An attribute at the front. An attribute without a value has the empty value. -/
def attribute? (previous : CodePoint) (s : Text) : Option ((Text × Text) × Text) :=
  match s with
  | [] => none
  | c :: r =>
    if startsAttribute previous c then
      let (name, rest) := Text.span r isAttributePart
      match value? rest with
      | some (value, rest) => some ((Text.lower (c :: name), resolveValue value), rest)
      | none => some ((Text.lower (c :: name), []), rest)
    else none

/--
The attributes at the front, and what follows them. Every attribute is at least one code point long, so
no more than `fuel` of them fit into a text of that length.
-/
def attributesFrom : (fuel : Nat) → CodePoint → Text → List (Text × Text) × Text
  | 0, _, s => ([], s)
  | fuel + 1, previous, s =>
    let (previous, s) := skipGap previous s
    match attribute? previous s with
    | some (first, rest) =>
      let (others, rest) := attributesFrom fuel (before previous s rest) rest
      (first :: others, rest)
    | none => ([], s)

/-- Sets an attribute; one that is set already keeps its place. -/
def setAttribute (attributes : List (Text × Text)) (a : Text × Text) : List (Text × Text) :=
  if attributes.any (·.1 == a.1) then attributes.map fun b => if b.1 = a.1 then a else b
  else attributes ++ [a]

/-- The attributes behind the name of a tag, each name once, with its last value; and what follows them. -/
def attributes (previous : CodePoint) (s : Text) : List (Text × Text) × Text :=
  let (read, rest) := attributesFrom (s.length + 1) previous s
  (read.foldl setAttribute [], rest)

end EquationExport.Html
