import EquationExport.Text

/-!
# Decimal digits

The decimal digits of all scripts (Unicode 14, general category Nd). Each script has its ten digits in
a row from zero to nine, so the value of a digit is its distance from the start of its range, modulo ten.
-/

/-! ### Digits of all scripts -/

namespace EquationExport.CodePoint

/-- The runs of decimal digits, in ascending order. Each starts with a zero. -/
def digitRanges : List (Nat × Nat) := [
  (0x30, 0x39), (0x660, 0x669), (0x6f0, 0x6f9), (0x7c0, 0x7c9), (0x966, 0x96f), (0x9e6, 0x9ef),
  (0xa66, 0xa6f), (0xae6, 0xaef), (0xb66, 0xb6f), (0xbe6, 0xbef), (0xc66, 0xc6f), (0xce6, 0xcef),
  (0xd66, 0xd6f), (0xde6, 0xdef), (0xe50, 0xe59), (0xed0, 0xed9), (0xf20, 0xf29), (0x1040, 0x1049),
  (0x1090, 0x1099), (0x17e0, 0x17e9), (0x1810, 0x1819), (0x1946, 0x194f), (0x19d0, 0x19d9), (0x1a80, 0x1a89),
  (0x1a90, 0x1a99), (0x1b50, 0x1b59), (0x1bb0, 0x1bb9), (0x1c40, 0x1c49), (0x1c50, 0x1c59), (0xa620, 0xa629),
  (0xa8d0, 0xa8d9), (0xa900, 0xa909), (0xa9d0, 0xa9d9), (0xa9f0, 0xa9f9), (0xaa50, 0xaa59), (0xabf0, 0xabf9),
  (0xff10, 0xff19), (0x104a0, 0x104a9), (0x10d30, 0x10d39), (0x11066, 0x1106f), (0x110f0, 0x110f9), (0x11136, 0x1113f),
  (0x111d0, 0x111d9), (0x112f0, 0x112f9), (0x11450, 0x11459), (0x114d0, 0x114d9), (0x11650, 0x11659), (0x116c0, 0x116c9),
  (0x11730, 0x11739), (0x118e0, 0x118e9), (0x11950, 0x11959), (0x11c50, 0x11c59), (0x11d50, 0x11d59), (0x11da0, 0x11da9),
  (0x16a60, 0x16a69), (0x16ac0, 0x16ac9), (0x16b50, 0x16b59), (0x1d7ce, 0x1d7ff), (0x1e140, 0x1e149), (0x1e2f0, 0x1e2f9),
  (0x1e950, 0x1e959), (0x1fbf0, 0x1fbf9)]

/-- The value of a decimal digit of any script. -/
def digit? (c : CodePoint) : Option Nat :=
  (digitRanges.find? fun r => c.inRange r.1 r.2).map fun r => (c.val - r.1) % 10

/-- A decimal digit of any script. -/
def isDigit (c : CodePoint) : Bool := c.inRanges digitRanges

/-- A digit of ASCII. -/
def isAsciiDigit (c : CodePoint) : Bool := c.inRange 0x30 0x39

/-- The value of a hexadecimal digit of ASCII. -/
def hexDigit? (c : CodePoint) : Option Nat :=
  if c.isAsciiDigit then some (c.val - 0x30)
  else if c.inRange 0x41 0x46 then some (c.val - 0x37)
  else if c.inRange 0x61 0x66 then some (c.val - 0x57)
  else none

/-- A hexadecimal digit of ASCII. -/
def isHexDigit (c : CodePoint) : Bool := c.hexDigit?.isSome

theorem digit?_lt {c : CodePoint} {n : Nat} (h : c.digit? = some n) : n < 10 := by
  obtain ⟨r, -, rfl⟩ := Option.map_eq_some_iff.1 h
  exact Nat.mod_lt _ (by decide)

end EquationExport.CodePoint

/-!
### Integers in decimal

The decimal digits of an integer, plain or filled up with zeros to a width. A minus sign takes one of the
places of the width and stands before the zeros.
-/

namespace EquationExport.Text

/-- The decimal digits of a natural number. -/
def ofNat (n : Nat) : Text := (Nat.toDigits 10 n).map CodePoint.ofChar

/-- The digits of an integer, at least `width` places wide. -/
def padded (width : Nat) (n : Int) : Text :=
  let digits := ofNat n.natAbs
  if n < 0 then ("-" : Text) ++ List.replicate (width - 1 - digits.length) (CodePoint.ofChar '0') ++ digits
  else List.replicate (width - digits.length) (CodePoint.ofChar '0') ++ digits

end EquationExport.Text
