import EquationExport.Document.Create
import EquationExport.LogLevel
import EquationExport.Text.Substitution

/-!
# The command line

`[-h] [-o OUTPUT] [--log-level LEVEL] [INPUT]`: reads a page from a file and writes the document to another.
A long option may be cut short as long as it stays unique, and its value may follow an equals sign; the value
of a short option may follow at once. Two dashes say that what follows is no option.
-/

namespace EquationExport.CommandLine

/-! ### Words -/

/-- What can be asked for with an option. -/
inductive Flag where
  | help
  | output
  | logLevel
  deriving DecidableEq

/-- A word of the command line. -/
inductive Word where
  /-- No option. -/
  | plain (text : Text)
  /-- An option written in one letter, and what follows the letter. -/
  | short (flag : Flag) (rest : Text)
  /-- An option written out or cut short, and its value behind an equals sign. -/
  | long (flag : Flag) (value : Option Text)
  /-- It looks like an option, but there is none like it. -/
  | unknown
  /-- The two dashes behind which there are no options. -/
  | separator

/-- The options written out. -/
def longNames : List (Text × Flag) := [("--help", .help), ("--output", .output), ("--log-level", .logLevel)]

/-- The options written in one letter. -/
def shortFlag? (letter : CodePoint) : Option Flag :=
  if letter = 'h' then some .help else if letter = 'o' then some .output else none

/-- One or more digits, and then nothing or a single line feed. -/
def isDigits (s : Text) : Bool :=
  let (digits, rest) := s.span (·.isDigit)
  !digits.isEmpty && (rest.isEmpty || rest == ("\n" : Text))

/-- A negative number without its sign. A number is no option. -/
def isNumber (s : Text) : Bool :=
  isDigits s || (Text.dropPrefix? (s.dropWhile (·.isDigit)) ".").any isDigits

/-- A name and what follows its first equals sign. -/
def splitValue (s : Text) : Text × Option Text :=
  match s.breakOn? "=" with
  | some (name, value) => (name, some value)
  | none => (s, none)

/-- A word that starts with a dash and is no option that is known. -/
def otherWord (s : Text) : Word :=
  if isNumber (s.drop 1) || s.containsPoint ' ' then .plain s else .unknown

/-- Reads a word that starts with two dashes; nothing if it could be more than one option. -/
def longWord? (s : Text) : Option Word :=
  let (name, value) := splitValue s
  match longNames.find? (·.1 == name) with
  | some (_, flag) => some (.long flag value)
  | none => match longNames.filter fun known => Text.startsWith known.1 name with
    | [] => some (otherWord s)
    | [(_, flag)] => some (.long flag value)
    | _ => none

/-- Reads a word; nothing if it could be more than one option. -/
def word? (s : Text) : Option Word :=
  match s with
  | dash :: c :: rest =>
    if dash ≠ '-' then some (.plain s)
    else if c = '-' then longWord? s
    else match shortFlag? c with
      | some flag => some (.short flag rest)
      | none => some (otherWord s)
  | _ => some (.plain s)

/-- Reads the words of a command line; nothing if one of them could be more than one option. -/
def words? : List Text → Option (List Word)
  | [] => some []
  | s :: rest =>
    if s = "--" then some (.separator :: rest.map .plain)
    else do
      let word ← word? s
      let later ← words? rest
      pure (word :: later)

/-! ### Arguments -/

/-- What is asked for. -/
structure Arguments where
  input : Text
  output : Text
  logLevel : Option Text

/-- Why nothing is done. -/
inductive Stop where
  /-- Help was asked for. -/
  | help
  /-- The command line has not the right form. -/
  | usage
  deriving DecidableEq

/-- What has been read of a command line. -/
structure Progress where
  input : Option Text
  output : Option Text
  logLevel : Option Text
  /-- There was a word that nothing asks for. -/
  surplus : Bool

/-- Sets the value of an option. -/
def Progress.set (p : Progress) (flag : Flag) (value : Text) : Progress :=
  match flag with
  | .help => p
  | .output => { p with output := some value }
  | .logLevel => { p with logLevel := some value }

/--
The end that letters behind `-h` lead to. They are options themselves, up to one that takes the rest as its
value; `valueFollows` says that the next word could be a value.
-/
def helpLetters (valueFollows : Bool) : Text → Stop
  | [] => .help
  | c :: rest =>
    if c = '-' ∨ c = '=' then .usage
    else match shortFlag? c with
      | some .help => helpLetters valueFollows rest
      | some _ => if rest.isEmpty && !valueFollows then .usage else .help
      | none => .help

/-- The value of a one-letter option, written behind its letter, perhaps after an equals sign. -/
def attachedValue (rest : Text) : Text := (rest.dropPrefix? "=").getD rest

/-- The word could be the value of an option. -/
def Word.isPlain : Word → Bool
  | .plain _ => true
  | _ => false

/-- Reads the words of a command line one after the other. -/
def progress (p : Progress) : List Word → Except Stop Progress
  | [] => .ok p
  | .unknown :: rest => progress { p with surplus := true } rest
  | .separator :: rest => match p.input, rest with
    | none, .plain text :: rest => progress { p with input := some text } rest
    | none, rest => progress p rest
    | some _, rest => progress { p with surplus := true } rest
  | .plain text :: rest => match p.input, rest with
    | none, .separator :: rest => progress { p with input := some text } rest
    | none, rest => progress { p with input := some text } rest
    | some _, rest => progress { p with surplus := true } rest
  | .long .help none :: _ => .error .help
  | .long .help (some _) :: _ => .error .usage
  | .long flag (some value) :: rest => progress (p.set flag value) rest
  | .long flag none :: .plain value :: rest => progress (p.set flag value) rest
  | .long _ none :: _ => .error .usage
  | .short .help letters :: rest => .error (helpLetters (rest.head?.any (·.isPlain)) letters)
  | .short flag (c :: letters) :: rest => progress (p.set flag (attachedValue (c :: letters))) rest
  | .short flag [] :: .plain value :: rest => progress (p.set flag value) rest
  | .short _ [] :: _ => .error .usage

/-- Reads a command line. -/
def parse (line : List Text) : Except Stop Arguments :=
  match words? line with
  | none => .error .usage
  | some words => do
    let p ← progress ⟨none, none, none, false⟩ words
    if p.surplus then throw .usage
    return ⟨p.input.getD "data/export.html", p.output.getD "output_from_html.docx", p.logLevel⟩

/-! ### Running -/

/-- Why a file cannot be used. -/
inductive FileFault where
  | missing
  | directory
  | denied
  deriving DecidableEq

/-- The files as the program finds them: what can be read, and whether a file can be written. -/
structure Files where
  read : Text → Except FileFault ByteArray
  write : Text → Except FileFault Unit

/-- How a run ends. -/
inductive Outcome where
  | stopped (s : Stop)
  | unknownLevel (e : UnknownLevel)
  /-- The failure has been reported, and nothing was written. -/
  | reported
  /-- A file that is there could not be used. -/
  | fileFault (f : FileFault)
  | documentFault (f : Document.Fault)
  | written (path : Text) (document : Document.Exported)

/-- The status of an ordinary end. -/
def Outcome.status? : Outcome → Option Nat
  | .stopped .help => some 0
  | .stopped .usage => some 2
  | .reported => some 1
  | .written .. => some 0
  | _ => none

/-- What reading the input leads to: the page, or the end. -/
def readPage (files : Files) (path : Text) : Except Outcome Text :=
  match files.read path with
  | .error .missing => .error .reported
  | .error fault => .error (.fileFault fault)
  | .ok bytes => match Text.ofFile? bytes with
    | some page => .ok page
    | none => .error .reported

/-- What the creation of a document leads to. -/
def save (files : Files) (path : Text) : Except Document.Fault Document.Exported → Outcome
  | .error (.unwritable _) => .reported
  | .error fault => .documentFault fault
  | .ok document => match files.write path with
    | .ok _ => .written path document
    | .error fault => .fileFault fault

/-- Runs the program on a command line. -/
def run (s : Document.Surroundings) (files : Files) (line : List Text) : Traced Outcome :=
  match parse line with
  | .error stop => pure (.stopped stop)
  | .ok arguments => match Logger.fresh.setLevel arguments.logLevel s.settings.logLevel with
    | .error e => pure (.unknownLevel e)
    | .ok _ => match readPage files arguments.input with
      | .error outcome => pure outcome
      | .ok page => do pure (save files arguments.output (← Document.create s page))

end EquationExport.CommandLine
