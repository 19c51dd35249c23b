import EquationExport.Html.Attribute
import EquationExport.Html.Node
import EquationExport.Text.Quoted

/-!
# Reading a page

The text of a page is read from left to right into events: an element is opened, an element is closed, text,
other markup. Almost everything is accepted. What cannot be read as markup is text, and markup that the end
of the input cuts short is text up to the next closing bracket. Only marked sections of an unknown kind are
refused.
-/

namespace EquationExport.Html

/-- What is read at one place of a page. -/
inductive Event where
  /-- An opening tag; `selfClosed` says that it closes the element as well. -/
  | opening (name : Text) (attributes : List (Text × Text)) (selfClosed : Bool)
  | closing (name : Text)
  | text (content : Text)
  | markup (kind : MarkupKind) (content : Text)

/-- Why a page is refused. -/
inductive Rejection where
  /-- A marked section without a name; the text begins with it. -/
  | nameExpected (found : Text)
  /-- A marked section of an unknown kind. -/
  | unknownSection (keyword : Text)

/-- The wording of a rejection. -/
def Rejection.message (r : Rejection) : Text :=
  let cause : Text := match r with
    | nameExpected found => "expected name token at " ++ found.quoted
    | unknownSection keyword => "unknown status keyword " ++ keyword.quoted ++ (" in marked section" : Text)
  ("The markup you provided was rejected by the parser. Trying a different parser or a different encoding may help.\n\nOriginal error(s) from parser:\n AssertionError: " : Text) ++
    cause

/-- What is read at a place, and what follows it; nothing if the input ends too soon. -/
abbrev Reading := Option (List Event × Text)

/-! ### Tags -/

/-- May stand in the name of a tag. -/
def isTagPart (c : CodePoint) : Bool := !(c ∈ ("\t\n\r\x0c />\x00" : Text))

/-- An opening tag; the text starts behind its bracket, with a letter. -/
def openingTag (s : Text) : Reading :=
  let (name, r) := s.span isTagPart
  let (attributes, rest) := attributes (name.getLastD '<') r
  match rest with
  | [] => none
  | c :: after =>
    if c == '>' then some ([.opening name.lower attributes false], after)
    else if c == '/' then some ([.opening name.lower attributes true], after.drop 1)
    else if c == '=' || c.isAsciiLetter then none
    else some ([.text ("<" ++ s.take (s.length - rest.length))], rest)

/-- May stand in the plain name of a closing tag. -/
def isPlainTagPart (c : CodePoint) : Bool :=
  c.isAsciiLetter || c.isAsciiDigit || c == '-' || c == '.' || c == ':' || c == '_'

/-- A closing tag with nothing but a plain name in it; the text starts behind the slash. -/
def plainClosing? (s : Text) : Option (Text × Text) :=
  match s.trimStart with
  | c :: r =>
    if c.isAsciiLetter then
      let (name, rest) := Text.span r isPlainTagPart
      (rest.trimStart.dropPrefix? ">").map ((c :: name), ·)
    else none
  | [] => none

/-- A closing tag; the text starts behind the slash. A tag with no name is left out or read as a comment. -/
def closingTag (s : Text) : Reading :=
  match s.breakOn? ">" with
  | none => none
  | some (inside, after) =>
    match plainClosing? s with
    | some (name, rest) => some ([.closing (Text.lower name)], rest)
    | none => match inside with
      | [] => some ([], after)
      | c :: _ =>
        if c.isAsciiLetter then some ([.closing (Text.lower (inside.takeWhile isTagPart))], after)
        else some ([.markup .comment inside], after)

/-! ### Other markup -/

/-- Markup of some kind up to the end that `end?` recognises. -/
def markupUpTo (kind : MarkupKind) (end? : Text → Option Text) (s : Text) : Reading :=
  (Text.breakAt? end? s).map fun (content, rest) => ([.markup kind content], rest)

/-- The end of a comment: two hyphens and a bracket, between them perhaps white space. -/
def commentEnd? (s : Text) : Option Text := do
  let r ← s.dropPrefix? "--"
  r.trimStart.dropPrefix? ">"

/-- The end of a marked section: square brackets, as many as `brackets`, and an angle bracket, with white space between. -/
def sectionEnd? : (brackets : Nat) → Text → Option Text
  | 0, s => s.dropPrefix? ">"
  | brackets + 1, s => do
    let r ← s.dropPrefix? "]"
    sectionEnd? brackets r.trimStart

/-- The marked sections with two closing square brackets. -/
def plainSections : List Text := ["temp", "cdata", "ignore", "include", "rcdata"]

/-- The marked sections with one. -/
def conditionalSections : List Text := ["if", "else", "endif"]

/-- May stand in the name of a marked section. -/
def isSectionPart (c : CodePoint) : Bool :=
  c.isAsciiLetter || c.isAsciiDigit || c == '-' || c == '_' || c == '.'

/-- A marked section as an event: its content is text of a section of character data, or a declaration. -/
def sectionEvent (content : Text) : Event :=
  match content.dropPrefixCaseless? "cdata[" with
  | some data => .markup .cdata data
  | none => .markup .declaration content

/-- A marked section; the text starts behind its square bracket. -/
def markedSection (s : Text) : Except Rejection Reading :=
  match s with
  | [] => .ok none
  | c :: r =>
    if !c.isAsciiLetter then .error (.nameExpected (("<![" ++ s : Text).take 20))
    else
      let (rest, after) := Text.span r isSectionPart
      let name : Text := Text.lower (c :: rest)
      let behind := after.trimStart
      let sectionUpTo (brackets : Nat) : Reading :=
        (Text.breakAt? (sectionEnd? brackets) s).map fun (content, rest) => ([sectionEvent content], rest)
      if behind.isEmpty then .ok none
      else if name ∈ plainSections then .ok (sectionUpTo 2)
      else if name ∈ conditionalSections then .ok (sectionUpTo 1)
      else .error (.unknownSection (s.take (s.length - behind.length)))

/-- Markup that an exclamation mark begins; the text starts behind it. -/
def declaration (s : Text) : Except Rejection Reading :=
  match s.dropPrefix? "--" with
  | some r => .ok (markupUpTo .comment commentEnd? r)
  | none => match s.dropPrefix? "[" with
    | some r => markedSection r
    | none => match s.dropPrefixCaseless? "doctype" with
      | some _ => .ok ((s.breakOn? ">").map fun (content, rest) =>
        ([.markup .doctype (content.drop 8)], rest))
      | none => .ok (markupUpTo .comment (·.dropPrefix? ">") s)

/-! ### One place -/

/-- How the reader goes on. -/
structure Mode where
  /-- Something was cut short by the end of the input. -/
  ending : Bool
  /-- The script or style sheet whose content is being read. -/
  raw : Option Text

/-- The elements whose content is read without looking for markup. -/
def rawNames : List Text := ["script", "style"]

/-- The mode after an event: a script or a style sheet may have been opened. -/
def Mode.after (mode : Mode) : List Event → Mode
  | [.opening name _ false] => if name ∈ rawNames then { mode with raw := some name } else mode
  | _ => mode

/-- What is read at a place, the text that follows, and the mode for it. -/
abbrev Step := List Event × Text × Mode

/-- Markup that is cut short: text up to the next closing bracket, or else up to the next opening one. -/
def cutShort (mode : Mode) (s : Text) : Step :=
  let mode := { mode with ending := true }
  match s.breakOn? ">" with
  | some (front, rest) => ([.text ("<" ++ front ++ (">" : Text))], rest, mode)
  | none => match s.breakOn? "<" with
    | some (front, rest) => ([.text ("<" ++ front)], "<" ++ rest, mode)
    | none => ([.text "<"], s, mode)

/-- What an opening bracket begins; the text starts behind it. -/
def bracketed (s : Text) : Except Rejection Reading :=
  match s with
  | [] => .ok none
  | c :: r =>
    if c.isAsciiLetter then .ok (openingTag s)
    else if c == '/' then .ok (closingTag r)
    else if c == '?' then .ok (markupUpTo .instruction (·.dropPrefix? ">") r)
    else if c == '!' then declaration r
    else .ok (some ([.text "<"], s))

/-- A reference by number that cannot be read; the text starts behind `&#`. -/
def strayNumber (mode : Mode) (s : Text) : Step :=
  if Text.containsPoint s ';' && !mode.ending then
    ([.text "&#"], s, { mode with ending := true })
  else ([.text ("&#" ++ s)], [], mode)

/-- A reference by name that cannot be read; the text starts behind the ampersand. -/
def strayName (mode : Mode) (s : Text) : Step :=
  match s with
  | [] => ([.text "&"], [], mode)
  | [c] => if c.isAsciiLetter then ([.text [c]], [], mode) else ([.text "&"], [c], mode)
  | c :: _ => if c.isAsciiLetter then ([.text ("&" ++ s)], [], mode) else ([.text "&"], s, mode)

/-- What an ampersand begins; the text starts behind it. -/
def reference (mode : Mode) (s : Text) : Step :=
  match s.dropPrefix? "#" with
  | some r => match numericReference? r with
    | some (characters, rest) => ([.text characters], rest, mode)
    | none => strayNumber mode r
  | none => match namedReference? s with
    | some (characters, rest) => ([.text characters], rest, mode)
    | none => strayName mode s

/-- The closing tag of a script or style sheet, and what follows it. -/
def rawEnd? (name s : Text) : Option (Text × Text) := do
  let r ← s.dropPrefix? "</"
  let r ← r.trimStart.dropPrefixCaseless? name
  let rest ← r.trimStart.dropPrefix? ">"
  pure (s.take (s.length - rest.length), rest)

/-- The content of a script or style sheet. If it is not closed, nothing of it is kept. -/
def rawContent (mode : Mode) (name s : Text) : Step :=
  match Text.breakAt? (rawEnd? name) s with
  | none => ([], [], mode)
  | some (content, tag, rest) =>
    if tag.all (fun c => c.val < 0x80) then ([.text content, .closing name], rest, { mode with raw := none })
    else ([.text (content ++ tag)], rest, mode)

/-- Reads at one place. -/
def step (mode : Mode) (c : CodePoint) (s : Text) : Except Rejection Step := do
  if let some name := mode.raw then return rawContent mode name (c :: s)
  if c == '<' then
    match ← bracketed s with
    | some (events, rest) => return (events, rest, mode.after events)
    | none => return cutShort mode s
  if c == '&' then return reference mode s
  let (front, rest) := s.span fun c => c != '<' && c != '&'
  return ([.text (c :: front)], rest, mode)

/-! ### The whole page -/

/-- Reads the events of a text, leaving out its first `skip` code points. -/
def eventsFrom : Mode → (skip : Nat) → Text → Except Rejection (List Event)
  | _, _, [] => .ok []
  | mode, skip + 1, _ :: s => eventsFrom mode skip s
  | mode, 0, c :: s => do
    let (events, rest, mode) ← step mode c s
    return events ++ (← eventsFrom mode (s.length - rest.length) s)

/-- The events of a page. -/
def events (page : Text) : Except Rejection (List Event) := eventsFrom ⟨false, none⟩ 0 page

end EquationExport.Html
