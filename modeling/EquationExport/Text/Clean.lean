import EquationExport.Text.Search

/-!
# Cleaning text

What is done to a text before it is written into a document: invisible characters and control characters
go, typographic spaces become plain ones and, in running text, every stretch of white space becomes a
single space.
-/

namespace EquationExport

/-!
### Surrogates

Two code units of UTF-16, a high and a low surrogate, stand for one code point past U+FFFF. A text in
which every surrogate belongs to such a pair, reading from left to right, can be mended by joining the
pairs; in any other text no surrogate can be kept.
-/

namespace CodePoint

/-- The first unit of a pair. -/
def isHighSurrogate (c : CodePoint) : Bool := c.inRange 0xD800 0xDBFF

/-- The second unit of a pair. -/
def isLowSurrogate (c : CodePoint) : Bool := c.inRange 0xDC00 0xDFFF

/-- The code point that a pair stands for. -/
def ofPair (high low : CodePoint) : CodePoint :=
  ofNat (0x10000 + (high.val - 0xD800) * 0x400 + (low.val - 0xDC00))

end CodePoint

namespace Text

/-- Whether a surrogate occurs in the text. -/
def hasSurrogate (s : Text) : Bool := s.any (·.isSurrogate)

/-- The text with each pair of surrogates joined; nothing if a surrogate stands alone. -/
def joinPairs? : Text → Option Text
  | [] => some []
  | [c] => if c.isSurrogate then none else some [c]
  | c :: d :: s =>
    if c.isHighSurrogate && d.isLowSurrogate then (joinPairs? s).map (CodePoint.ofPair c d :: ·)
    else if c.isSurrogate then none
    else (joinPairs? (d :: s)).map (c :: ·)

/-- Joins the pairs of surrogates if every surrogate belongs to one, and deletes all surrogates if not. -/
def stripUnpairedSurrogates (s : Text) : Text :=
  s.joinPairs?.getD (s.filter fun c => !c.isSurrogate)

end Text

/-! ### Clean text -/

namespace CodePoint

/-- Takes no room: zero-width spaces and joiners, the soft hyphen, the marks of writing direction. -/
def isZeroWidth (c : CodePoint) : Bool :=
  c.inRange 0x200B 0x200D || c.val == 0x2060 || c.val == 0xFEFF || c.val == 0xAD ||
    c.inRange 0x202A 0x202E || c.inRange 0x2066 0x2069

/-- A control character other than tab, line feed, carriage return and next line. -/
def isControl (c : CodePoint) : Bool :=
  c.inRange 0x00 0x08 || c.val == 0x0B || c.val == 0x0C || c.inRange 0x0E 0x1F ||
    c.inRange 0x7F 0x84 || c.inRange 0x86 0x9F

/-- A space of a width of its own, or one that does not break. -/
def isTypographicSpace (c : CodePoint) : Bool :=
  c.val == 0xA0 || c.inRange 0x2000 0x200A || c.val == 0x202F || c.val == 0x205F || c.val == 0x3000

end CodePoint

namespace Text

/-- The text without its zero-width characters. -/
def stripZeroWidth (s : Text) : Text := s.filter fun c => !c.isZeroWidth

/-- The text without zero-width characters, lone surrogates and control characters. -/
def sanitize (s : Text) : Text :=
  s.stripZeroWidth.stripUnpairedSurrogates.filter fun c => !c.isControl

/-- Typographic spaces as plain spaces. -/
def plainSpaces (s : Text) : Text := s.map fun c => if c.isTypographicSpace then ' ' else c

/-- Each stretch of white space as one space; `inSpace` says that one has just been written. -/
def collapseSpaceFrom : Bool → Text → Text
  | _, [] => []
  | inSpace, c :: s =>
    if c.isSpace then (if inSpace then collapseSpaceFrom true s else ' ' :: collapseSpaceFrom true s)
    else c :: collapseSpaceFrom false s

/-- Each stretch of white space as one space. -/
def collapseSpace (s : Text) : Text := collapseSpaceFrom false s

/-- Running text as it is written: clean, with plain spaces, one at a time. -/
def normalize (s : Text) : Text := s.sanitize.plainSpaces.collapseSpace

/-- Preformatted text as it is written: clean, its white space kept, no-break spaces made plain. -/
def normalizePreformatted (s : Text) : Text := s.sanitize.replacePoint '\u00A0' ' '

end Text

end EquationExport
