import EquationExport.Text.Class

/-!
# Finding a text in a text

Literal search: a text at the front of another, the first place where it stands, the pieces between
separators. A function named for the front of a text returns what follows there, so that recognisers are
written one after the other.
-/

namespace EquationExport.Text

/-! ### At the front -/

/-- What follows `pre`, if the text starts with it. -/
def dropPrefix? : Text → Text → Option Text
  | s, [] => some s
  | [], _ :: _ => none
  | c :: s, p :: pre => if c = p then dropPrefix? s pre else none

/-- What follows `pre`, if the text starts with it when case is put aside. -/
def dropPrefixCaseless? : Text → Text → Option Text
  | s, [] => some s
  | [], _ :: _ => none
  | c :: s, p :: pre => if c.caseless = p.caseless then dropPrefixCaseless? s pre else none

/-- The first of the given texts that stands at the front, and what follows it. -/
def dropOneOf? (s : Text) : List Text → Option (Text × Text)
  | [] => none
  | p :: ps => match s.dropPrefix? p with
    | some rest => some (p, rest)
    | none => dropOneOf? s ps

/-- The longest front whose code points satisfy `p`, and what follows it. -/
def span (s : Text) (p : CodePoint → Bool) : Text × Text := (s.takeWhile p, s.dropWhile p)

/-- Whether the text starts with `pre`. -/
def startsWith (s pre : Text) : Bool := (s.dropPrefix? pre).isSome

/-- Whether the text ends with `post`. -/
def endsWith (s post : Text) : Bool := startsWith s.reverse post.reverse

theorem dropPrefix?_append (pre s : Text) : dropPrefix? (pre ++ s) pre = some s := by
  induction pre with
  | nil => simp [dropPrefix?]
  | cons p pre ih => simp [dropPrefix?, ih]

theorem eq_append_of_dropPrefix? {s pre rest : Text} (h : s.dropPrefix? pre = some rest) :
    s = pre ++ rest := by
  fun_induction dropPrefix? s pre with
  | case1 s => simpa using h
  | case2 => simp at h
  | case3 p s pre ih => simp [← ih h]
  | case4 => simp at h

theorem dropPrefix?_eq_some_iff {s pre rest : Text} : s.dropPrefix? pre = some rest ↔ s = pre ++ rest :=
  ⟨eq_append_of_dropPrefix?, fun h => h ▸ dropPrefix?_append pre rest⟩

/-! ### Blank ends -/

/-- The text without the white space at its front. -/
def trimStart (s : Text) : Text := s.dropWhile (·.isSpace)

/-- The text without the white space at its end. -/
def trimEnd (s : Text) : Text := (s.reverse.dropWhile (·.isSpace)).reverse

/-- The text without the white space at its two ends. -/
def trim (s : Text) : Text := s.trimStart.trimEnd

/-- Nothing but white space. -/
def isBlank (s : Text) : Bool := s.all (·.isSpace)

/-! ### Anywhere -/

/--
The first place where `found?` recognises something, as the text before it and what `found?` returned.
The end of the text is tried too.
-/
def breakAt? (found? : Text → Option α) : Text → Option (Text × α)
  | [] => (found? []).map ([], ·)
  | c :: s => match found? (c :: s) with
    | some a => some ([], a)
    | none => match breakAt? found? s with
      | some (before, a) => some (c :: before, a)
      | none => none

/-- The first occurrence of `needle`, as the text before and the text after it. -/
def breakOn? (s needle : Text) : Option (Text × Text) := breakAt? (·.dropPrefix? needle) s

/-- The number of code points before the first occurrence of `needle`. -/
def find? (s needle : Text) : Option Nat := (s.breakOn? needle).map (·.1.length)

/-- Whether `found?` recognises something anywhere in the text. -/
def holds (s : Text) (found? : Text → Option α) : Bool := (breakAt? found? s).isSome

/-- Whether `needle` occurs in the text. -/
def contains (s needle : Text) : Bool := s.holds (·.dropPrefix? needle)

/-- The code point occurs in the text. -/
def containsPoint (s : Text) (c : CodePoint) : Bool := s.elem c

/-- The pieces between the occurrences of `sep`; one more than there are occurrences. -/
def splitOn (sep : CodePoint) : Text → List Text
  | [] => [[]]
  | c :: s => match splitOn sep s with
    | [] => [[]]
    | piece :: pieces => if c = sep then [] :: piece :: pieces else (c :: piece) :: pieces

/-- The texts one after the other, with `sep` between them. -/
def join (sep : Text) : List Text → Text
  | [] => []
  | [s] => s
  | s :: rest => s ++ sep ++ join sep rest

/-- Each code point `a` replaced by `b`. -/
def replacePoint (s : Text) (a b : CodePoint) : Text := s.map fun c => if c = a then b else c

end EquationExport.Text
