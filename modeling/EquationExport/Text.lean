/-!
# Text

A text is a sequence of Unicode code points. Lone surrogates can occur in what the program is given,
so a code point ranges over all of U+0000 to U+10FFFF, and the rules that remove surrogates are
ordinary functions on texts. Character and string literals are read as code points and texts.
-/

namespace EquationExport

/-- A Unicode code point, the surrogates U+D800 to U+DFFF included. -/
structure CodePoint where
  /-- The number of the code point. -/
  val : Nat
  isLt : val < 0x110000
  deriving DecidableEq

namespace CodePoint

/-- A character is a code point that is no surrogate. -/
def ofChar (c : Char) : CodePoint :=
  ⟨c.toNat, c.valid.elim (fun h => Nat.lt_trans h (by decide)) (fun h => h.2)⟩

instance : Coe Char CodePoint := ⟨ofChar⟩

/-- U+FFFD, which stands for what cannot be represented. -/
def replacement : CodePoint := '\uFFFD'

/-- The code point of a number; a number past U+10FFFF gives the replacement character. -/
def ofNat (n : Nat) : CodePoint :=
  if h : n < 0x110000 then ⟨n, h⟩ else replacement

/-- The code point lies between two numbers, both included. -/
def inRange (c : CodePoint) (lo hi : Nat) : Bool := lo ≤ c.val && c.val ≤ hi

/-- The code point lies in one of the given ranges. -/
def inRanges (c : CodePoint) (ranges : List (Nat × Nat)) : Bool :=
  ranges.any fun r => c.inRange r.1 r.2

/-- A code unit of UTF-16 that is no code point of its own. -/
def isSurrogate (c : CodePoint) : Bool := c.inRange 0xD800 0xDFFF

theorem ofNat_val (c : CodePoint) : ofNat c.val = c := by simp [ofNat, c.isLt]

theorem val_ofNat {n : Nat} (h : n < 0x110000) : (ofNat n).val = n := by simp [ofNat, h]

end CodePoint

/-- A sequence of code points. -/
abbrev Text := List CodePoint

instance : LawfulBEq Text := inferInstance

namespace Text

/-- The code points of a string. -/
def ofString (s : String) : Text := s.toList.map CodePoint.ofChar

/-- The code points of each of some strings. -/
def ofStrings (ss : List String) : List Text := ss.map ofString

instance : Coe String Text := ⟨ofString⟩

end Text

end EquationExport
