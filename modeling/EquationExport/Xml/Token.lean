import EquationExport.Text.Digit
import EquationExport.Xml.NameCharacter

/-!
# The tokens of markup

What stands between two places of a written document where a reader can stop: references, comments,
processing instructions, sections of literal text, and tags. Each recogniser is given the text behind the
characters that announce the token and returns what it read and what follows, or nothing if the markup is
not well-formed.
-/

namespace EquationExport.Xml

/-- Line ends as line feeds. -/
def normalizeLineEnds : Text → Text
  | [] => []
  | c :: s =>
    if c = '\r' then
      (if s.head? = some '\n' then normalizeLineEnds s else ('\n' : CodePoint) :: normalizeLineEnds s)
    else c :: normalizeLineEnds s

/-- Nothing but characters that may stand in a document. -/
def isLegal (s : Text) : Bool := s.all (·.isXml)

/-- The number that some digits write. -/
def numberOf (base : Nat) (digits : List Nat) : Nat := digits.foldl (fun n d => n * base + d) 0

/-- The character with the number that the digits write, if they are digits and it is a legal one. -/
def characterOf? (base : Nat) (digit? : CodePoint → Option Nat) (digits : Text) : Option CodePoint :=
  match digits.mapM digit? with
  | some (d :: ds) =>
    let n := numberOf base (d :: ds)
    let c := CodePoint.ofNat n
    if n < 0x110000 && c.isXml then some c else none
  | _ => none

/-- The value of a digit of ASCII. -/
def asciiDigit? (c : CodePoint) : Option Nat := if c.isAsciiDigit then some (c.val - 0x30) else none

/-- The references by name. -/
def namedCharacters : List (Text × CodePoint) :=
  [("lt", '<'), ("gt", '>'), ("amp", '&'), ("quot", '"'), ("apos", '\'')]

/-- The character that a reference stands for; the text starts behind the ampersand. -/
def reference? (s : Text) : Option (CodePoint × Text) :=
  match s.breakOn? ";" with
  | none => none
  | some (body, rest) =>
    let c : Option CodePoint := match body.dropPrefix? "#x" with
      | some digits => characterOf? 16 (·.hexDigit?) digits
      | none => match body.dropPrefix? "#" with
        | some digits => characterOf? 10 asciiDigit? digits
        | none => (namedCharacters.find? (·.1 == body)).map (·.2)
    c.map (·, rest)

/-- Text, comments and the like between two marks: legal characters, with line feeds for line ends. -/
def until? (mark s : Text) : Option (Text × Text) :=
  match s.breakOn? mark with
  | some (inside, rest) => if isLegal inside then some (normalizeLineEnds inside, rest) else none
  | none => none

/-- The content of a comment; two hyphens in a row end it. -/
def comment? (s : Text) : Option (Text × Text) :=
  match until? "--" s with
  | some (content, rest) => (rest.dropPrefix? ">").map (content, ·)
  | none => none

/-- The target and the content of a processing instruction. The target `xml` is reserved, in any case. -/
def instruction? (s : Text) : Option ((Text × Option Text) × Text) :=
  match plainName? s with
  | none => none
  | some (target, rest) =>
    if target.map (·.asciiLower) = "xml" then none
    else match rest.dropPrefix? "?>" with
      | some rest => some ((target, none), rest)
      | none =>
        if rest.head?.any (·.isBlank) then
          (until? "?>" (rest.dropWhile (·.isBlank))).map fun (content, rest) => ((target, some content), rest)
        else none

/-! ### Tags -/

/-- A name as it is written: the qualifier, if there is one, and the local part. -/
abbrev WrittenName := Option Text × Text

/-- Literal text in an attribute value: white space counts as spaces, and no tag may open. -/
def valueText? (s : Text) : Option Text :=
  if isLegal s && !s.containsPoint '<' then
    some ((normalizeLineEnds s).map fun c => if c.isBlank then ' ' else c)
  else none

/-- The text after an ampersand in an attribute value: a reference and literal text. -/
def valuePiece? (s : Text) : Option Text :=
  match reference? s with
  | some (c, rest) => (valueText? rest).map (c :: ·)
  | none => none

/-- The value that is written between two quotes. -/
def value? (s : Text) : Option Text :=
  match Text.splitOn '&' s with
  | [] => some []
  | first :: pieces => do
    let first ← valueText? first
    let pieces ← pieces.mapM valuePiece?
    some (first ++ pieces.flatten)

/-- An attribute at the front: its name and its value, in double or single quotes. -/
def attribute? (s : Text) : Option ((WrittenName × Text) × Text) := do
  let (name, rest) ← qualifiedName? s
  let rest ← (Text.dropPrefix? (rest.dropWhile (·.isBlank)) "=")
  let (quote, rest) ← Text.dropOneOf? (rest.dropWhile (·.isBlank)) ["\"", "'"]
  let (written, rest) ← rest.breakOn? quote
  let value ← value? written
  some ((name, value), rest)

/--
The attributes of a tag up to its end, and whether the tag closes itself. There is white space before each
attribute. `fuel` bounds the number of attributes.
-/
def attributes? : Nat → Text → Option ((List (WrittenName × Text) × Bool) × Text)
  | 0, _ => none
  | fuel + 1, s =>
    let r : Text := s.dropWhile (·.isBlank)
    match r.dropPrefix? ">", r.dropPrefix? "/>" with
    | some rest, _ => some (([], false), rest)
    | none, some rest => some (([], true), rest)
    | none, none =>
      if s.head?.any (·.isBlank) then do
        let (first, rest) ← attribute? r
        let ((others, closed), rest) ← attributes? fuel rest
        some ((first :: others, closed), rest)
      else none

/-- An opening tag as it is written. -/
structure WrittenTag where
  name : WrittenName
  attributes : List (WrittenName × Text)
  /-- The tag closes itself. -/
  closed : Bool

/-- An opening tag; the text starts behind the angle bracket. -/
def openingTag? (s : Text) : Option (WrittenTag × Text) := do
  let (name, rest) ← qualifiedName? s
  let ((attributes, closed), rest) ← attributes? (rest.length + 1) rest
  some (⟨name, attributes, closed⟩, rest)

/-- The name in a closing tag; the text starts behind the slash. -/
def closingTag? (s : Text) : Option (WrittenName × Text) := do
  let (name, rest) ← qualifiedName? s
  let rest ← Text.dropPrefix? (rest.dropWhile (·.isBlank)) ">"
  some (name, rest)

end EquationExport.Xml
