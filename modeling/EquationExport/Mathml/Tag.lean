import EquationExport.Text.Alphanumeric
import EquationExport.Text.Substitution

/-!
# Tags in written markup

MathML comes as text that need not be well-formed, so its tags are recognised where they stand: the opening
`<` with a name that ends there, then everything up to the next `>`. A `>` inside a quoted attribute
value ends the tag as well.
-/

namespace EquationExport.Mathml

/-- What follows `start`, if the word it ends in ends there. -/
def skipWord? (s start : Text) : Option Text :=
  match s.dropPrefix? start with
  | some r => if r.atWordEnd then some r else none
  | none => none

/-- What follows `start`, with case put aside, if the word it ends in ends there. -/
def skipWordCaseless? (s start : Text) : Option Text :=
  match s.dropPrefixCaseless? start with
  | some r => if r.atWordEnd then some r else none
  | none => none

/-- The rest of a tag, up to its `>`, and what follows the `>`. -/
def tagRest? (s : Text) : Option (Text × Text) := s.breakOn? ">"

/-- What follows the next `>`. -/
def skipTagRest? (s : Text) : Option Text := (tagRest? s).map (·.2)

/-- What follows an opening tag of the given name. -/
def skipOpenTag? (name s : Text) : Option Text :=
  (skipWord? s ("<" ++ name)).bind skipTagRest?

/-- What follows an opening or closing tag of the given name, with case put aside. -/
def skipAnyTag? (name s : Text) : Option Text :=
  ((skipWordCaseless? s ("</" ++ name)).or (skipWordCaseless? s ("<" ++ name))).bind skipTagRest?

/--
What follows an element of the given name, with case put aside: from its opening tag to the first closing
tag of that name.
-/
def skipElement? (name s : Text) : Option Text :=
  match skipWordCaseless? s ("<" ++ name) with
  | some r => (Text.breakAt? (·.dropPrefixCaseless? ("</" ++ name ++ ">")) r).map (·.2)
  | none => none

/-- What follows a tag of any name: `<`, at least one more character, and the next `>`. -/
def skipTag? (s : Text) : Option Text :=
  match s.dropPrefix? "<" with
  | some r => match tagRest? r with
    | some (inside, rest) => if inside.isEmpty then none else some rest
    | none => none
  | none => none

end EquationExport.Mathml
