import EquationExport.Text

/-!
# Classes of code points

White space, the letters of ASCII, and what XML 1.0 admits as a character. White space is the
wide class of Unicode together with the four information separators U+001C to U+001F; blanks are the
four characters that XML counts as white space.
-/

namespace EquationExport.CodePoint

/-- White space: of Unicode, and the information separators. -/
def isSpace (c : CodePoint) : Bool :=
  c.inRange 0x09 0x0D || c.inRange 0x1C 0x20 || c.val == 0x85 || c.val == 0xA0 || c.val == 0x1680 ||
    c.inRange 0x2000 0x200A || c.val == 0x2028 || c.val == 0x2029 || c.val == 0x202F ||
    c.val == 0x205F || c.val == 0x3000

/-- White space of XML: space, tab, line feed and carriage return. -/
def isBlank (c : CodePoint) : Bool := c == ' ' || c == '\t' || c == '\n' || c == '\r'

/-- A letter of ASCII. -/
def isAsciiLetter (c : CodePoint) : Bool := c.inRange 0x41 0x5A || c.inRange 0x61 0x7A

/-- A character of XML 1.0. -/
def isXml (c : CodePoint) : Bool :=
  c == '\t' || c == '\n' || c == '\r' || c.inRange 0x20 0xD7FF || c.inRange 0xE000 0xFFFD ||
    c.inRange 0x10000 0x10FFFF

/-- A capital letter of ASCII as its small letter; any other code point as it is. -/
def asciiLower (c : CodePoint) : CodePoint :=
  if c.inRange 0x41 0x5A then ofNat (c.val + 0x20) else c

/--
The code point with case put aside, as far as letters of ASCII are concerned: the capitals of ASCII, and
the four code points past ASCII whose case forms lead to a letter of ASCII (`İ` and `ı` to `i`, `ſ` to
`s`, the Kelvin sign to `k`).
-/
def caseless (c : CodePoint) : CodePoint :=
  if c.val == 0x130 || c.val == 0x131 then 'i'
  else if c.val == 0x17F then 's'
  else if c.val == 0x212A then 'k'
  else c.asciiLower

theorem isSpace_of_isBlank {c : CodePoint} (h : c.isBlank) : c.isSpace := by
  simp only [isBlank, Bool.or_eq_true, beq_iff_eq] at h
  rcases h with ((rfl | rfl) | rfl) | rfl <;> decide

end EquationExport.CodePoint
