import EquationExport.Text.Search

/-!
# Substitution everywhere in a text

A *rule* looks at the front of a text. Where it applies it says what is put there and what of the text
is left; what lies between is gone. `substitute` applies a rule at every place, from left to right: after an
application it goes on behind the replaced part, so replaced parts never overlap and what was put in is not
looked at again. A rule also sees the code point before its place, in the text as it was given.

Text from files may end its lines with a carriage return, a line feed, or both. Inside the program a line
ends with a line feed.
-/

namespace EquationExport.Text

/-- What is put at this place, and what of the text is left, given the code point before the place. -/
abbrev Rule := Option CodePoint → Text → Option (Text × Text)

/--
Goes through a text, leaving out the next `skip` code points. A rule that leaves the text as long as it
was still replaces one code point, so the run ends.
-/
def substituteFrom (rule : Rule) : Option CodePoint → Nat → Text → Text
  | _, _, [] => []
  | _, skip + 1, c :: s => substituteFrom rule (some c) skip s
  | before, 0, c :: s => match rule before (c :: s) with
    | some (put, rest) => put ++ substituteFrom rule (some c) (s.length - rest.length) s
    | none => c :: substituteFrom rule (some c) 0 s

/-- The text with a rule applied at every place, from left to right. -/
def substitute (s : Text) (rule : Rule) : Text := substituteFrom rule none 0 s

/-- The rule that puts `put` in place of what `skip?` recognises; `skip?` returns what follows. -/
def replacing (skip? : Text → Option Text) (put : Text) : Rule :=
  fun _ s => (skip? s).map (put, ·)

/-- The rule that deletes what `skip?` recognises. -/
def deleting (skip? : Text → Option Text) : Rule := replacing skip? []

/-- Every occurrence of `old` replaced by `new`, from left to right. -/
def replace (s old new : Text) : Text := s.substitute (replacing (·.dropPrefix? old) new)

/-- A rule that applies nowhere in the text changes nothing. -/
theorem substituteFrom_eq_self {rule : Rule} {s : Text} (h : ∀ before r, rule before r = none)
    (before : Option CodePoint) : substituteFrom rule before 0 s = s := by
  induction s generalizing before with
  | nil => rfl
  | cons c s ih => simp [substituteFrom, h, ih]

/-- What is left out does not matter, but for the code point before the place where the run goes on. -/
theorem exists_substituteFrom_drop (rule : Rule) (before : Option CodePoint) (s : Text) (skip : Nat) :
    ∃ before', substituteFrom rule before skip s = substituteFrom rule before' 0 (s.drop skip) := by
  induction skip generalizing before s with
  | zero => exact ⟨before, rfl⟩
  | succ skip ih =>
    cases s with
    | nil => exact ⟨before, rfl⟩
    | cons c s => exact ih (some c) s

/-! ### Text from files -/

/-- The text with a line feed at the end of every line. -/
def unixLines (s : Text) : Text := (s.replace "\r\n" "\n").replacePoint '\r' '\n'

/-- The text that bytes encode in UTF-8, if they do. -/
def ofUtf8? (bytes : ByteArray) : Option Text := (String.fromUTF8? bytes).map ofString

/-- The text of a file: UTF-8, with a line feed at the end of every line. -/
def ofFile? (bytes : ByteArray) : Option Text := (ofUtf8? bytes).map unixLines

/-- The text as a string; a surrogate, which no string can hold, becomes a replacement character. -/
def toString (s : Text) : String :=
  String.ofList (s.map fun c => if c.val.isValidChar then Char.ofNat c.val else '\uFFFD')

end EquationExport.Text
