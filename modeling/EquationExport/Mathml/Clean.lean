import EquationExport.Mathml.Tag
import EquationExport.Text.Clean

/-!
# Clean MathML

The form of MathML that is given to a converter: no annotations, no style wrappers, no invisible
operators, plain spaces, identifiers for text, operators without fence hints, and no declaration of the
MathML namespace.
-/

namespace EquationExport.Mathml

/-!
### Annotations

A formula may carry its source beside its presentation, as annotations inside a `semantics` element. The
annotations are deleted with all they hold; the tags of `semantics` are deleted and what stands between
them is kept.
-/

/-- Deletes every element of the given name, up to its first closing tag. -/
def deleteElements (name s : Text) : Text := s.substitute (Text.deleting (skipElement? name))

/-- Deletes every tag of the given name and keeps what stands between. -/
def deleteTags (name s : Text) : Text := s.substitute (Text.deleting (skipAnyTag? name))

/-- The presentation of a formula alone. -/
def stripAnnotations (s : Text) : Text :=
  deleteTags "semantics" (deleteElements "annotation" (deleteElements "annotation-xml" s))

/-!
### Text elements

An `mtext` element becomes an identifier, `mi`, that holds its text: markup nested in it goes, and so do
characters that take no room.
-/

/-- What follows an `mtext` tag that closes itself. -/
def skipEmptyText? (s : Text) : Option Text := do
  let r ← skipWord? s "<mtext"
  let (inside, rest) ← tagRest? r
  if Text.endsWith inside "/" then some rest else none

/-- The text of marked-up content. -/
def contentText (s : Text) : Text := Text.stripZeroWidth (s.substitute (Text.deleting skipTag?))

/-- The text element at the front, as an identifier. -/
def flattenText? (s : Text) : Option (Text × Text) := do
  let r ← skipOpenTag? "mtext" s
  let (content, rest) ← r.breakOn? "</mtext>"
  some ("<mi>" ++ contentText content ++ "</mi>", rest)

/-- Every text element as an identifier. -/
def flattenTextElements (s : Text) : Text :=
  (s.substitute (Text.replacing skipEmptyText? "<mi></mi>")).substitute fun _ => flattenText?

/-!
### Invisible operators

Function application, invisible times, invisible separator and invisible plus (U+2061 to U+2064) tell a
reader how juxtaposed parts are meant, and print nothing. They are written as characters, as numeric
references or by name, alone in an `mo` element or loose.
-/

/-- The names of the invisible operators, as references. -/
def invisibleReferences : List Text := Text.ofStrings
  ["&#x2061;", "&#x2062;", "&#x2063;", "&#x2064;", "&#8261;", "&#8262;", "&#8263;", "&#8264;",
    "&ApplyFunction;", "&af;", "&InvisibleTimes;", "&it;", "&InvisibleComma;", "&ic;"]

/-- What follows an invisible operator. -/
def skipInvisible? (s : Text) : Option Text :=
  match s with
  | [] => none
  | c :: r => if c.inRange 0x2061 0x2064 then some r else (s.dropOneOf? invisibleReferences).map (·.2)

/-- What follows an `mo` element that holds what `skip?` recognises, white space aside, and nothing else. -/
def skipOperatorHolding? (skip? : Text → Option Text) (s : Text) : Option Text := do
  let inside ← skipOpenTag? "mo" s
  let after ← skip? inside.trimStart
  after.trimStart.dropPrefix? "</mo>"

/-- The markup without invisible operators; an operator element that holds one goes as a whole. -/
def stripInvisibleOperators (s : Text) : Text :=
  (s.substitute (Text.deleting (skipOperatorHolding? skipInvisible?))).substitute (Text.deleting skipInvisible?)

/-!
### Fences

An `mo` element may hint that it is a fence and how it stretches. The hints are dropped, since they
conflict with what a converter decides for itself. Whole fence operators are deleted only as a last resort,
when a converter loses a fraction that stands between them.
-/

/-- The attributes that hint at a fence. -/
def fenceAttributes : List Text := ["fence", "stretchy", "symmetric", "form", "minsize", "maxsize"]

/-- What follows a value in double or single quotes. -/
def skipQuoted? (s : Text) : Option Text :=
  match s.dropOneOf? ["\"", "'"] with
  | some (quote, r) => (r.breakOn? quote).map (·.2)
  | none => none

/-- What follows a fence attribute with the white space before it. -/
def skipFenceAttribute? (s : Text) : Option Text :=
  match s with
  | [] => none
  | c :: _ =>
    if c.isSpace then do
      let (_, r) ← s.trimStart.dropOneOf? fenceAttributes
      let r ← r.trimStart.dropPrefix? "="
      skipQuoted? r.trimStart
    else none

/-- The opening tag of an operator at the front, without fence attributes. -/
def plainOperatorTag? (s : Text) : Option (Text × Text) := do
  let r ← skipWord? s "<mo"
  let (inside, rest) ← tagRest? r
  let tag : Text := "<mo" ++ inside ++ ">"
  some (tag.substitute (Text.deleting skipFenceAttribute?), rest)

/-- The markup without fence attributes on its operators. -/
def stripFenceAttributes (s : Text) : Text := s.substitute fun _ => plainOperatorTag?

/-- The fence glyphs, each as a character and as a reference. -/
def fenceGlyphs : List Text := Text.ofStrings
  ["(", ")", "[", "]", "\x7b", "\x7d", "|", "‖", "⟨", "⟩", "〈", "〉",
    "&lpar;", "&rpar;", "&lsqb;", "&rsqb;", "&lbrack;", "&rbrack;", "&lcub;", "&rcub;", "&lbrace;",
    "&rbrace;", "&vert;", "&Vert;", "&lang;", "&rang;", "&lvert;", "&rvert;",
    "&#x28;", "&#x29;", "&#x5b;", "&#x5B;", "&#x5d;", "&#x5D;", "&#x7b;", "&#x7B;", "&#x7c;", "&#x7C;",
    "&#x7d;", "&#x7D;", "&#x2016;", "&#x27e8;", "&#x27E8;", "&#x27e9;", "&#x27E9;", "&#x3008;", "&#x3009;"]

/-- What follows a fence glyph. -/
def skipFence? (s : Text) : Option Text := (s.dropOneOf? fenceGlyphs).map (·.2)

/-- The markup without the operators that hold a fence glyph and nothing else. -/
def stripFenceOperators (s : Text) : Text :=
  s.substitute (Text.deleting (skipOperatorHolding? skipFence?))

/-! ### The form for a converter -/

/-- What follows a reference to the no-break space, in any case. -/
def skipNoBreakSpace? (s : Text) : Option Text :=
  ["&nbsp;", "&#160;", "&#xa0;"].findSome? fun name : String => s.dropPrefixCaseless? name

/-- What follows a declaration of the MathML namespace with the white space before it. -/
def skipNamespace? (s : Text) : Option Text :=
  match s with
  | [] => none
  | c :: _ =>
    if c.isSpace then do
      let r ← s.trimStart.dropPrefix? "xmlns"
      let r ← ((r.dropPrefix? ":mml").getD r).trimStart.dropPrefix? "="
      r.trimStart.dropPrefix? "\"http://www.w3.org/1998/Math/MathML\""
    else none

/-- MathML in the form that is given to a converter. -/
def clean (s : Text) : Text :=
  let s := stripInvisibleOperators (deleteTags "mstyle" (stripAnnotations s))
  let s := Text.plainSpaces (s.substitute (Text.replacing skipNoBreakSpace? " "))
  let s := stripFenceAttributes (flattenTextElements s)
  (s.substitute (Text.deleting skipNamespace?)).trim

/-- The markup has a fraction element. -/
def hasFraction (s : Text) : Bool :=
  s.holds fun r => match r.dropPrefix? "<mfrac" with
    | some (c :: rest) => if c.isSpace || c == '/' || c == '>' then some rest else none
    | _ => none

end EquationExport.Mathml
