import EquationExport.CommandLine
import EquationExport.Package

/-!
# The program

Reads the page that the command line names, creates the document and writes it. Converters are other
programs; where none is at hand, equations keep their source.
-/

namespace EquationExport.Program

/-- No converters: nothing is converted. -/
def noConverters : Converters := ⟨fun _ => none, fun _ _ => none⟩

/-- What can go wrong with a file, as the program tells it. -/
def faultOf (e : IO.Error) : CommandLine.FileFault :=
  match e with
  | .noFileOrDirectory .. => .missing
  | .inappropriateType .. => .directory
  | _ => .denied

/-- The bytes of a file, or why they cannot be read. -/
def readFile (path : Text) : IO (Except CommandLine.FileFault ByteArray) := do
  try
    return .ok (← IO.FS.readBinFile (Text.toString path))
  catch e => return .error (faultOf e)

/-- Writes a file. -/
def writeFile (path : Text) (bytes : ByteArray) : IO (Except CommandLine.FileFault Unit) := do
  try
    IO.FS.writeBinFile (Text.toString path) bytes
    return .ok ()
  catch e => return .error (faultOf e)

/-- The settings of the environment the program runs in. -/
def readSettings : IO (Except Text.NotInteger Settings) := do
  let names := ["LOG_LEVEL", "HOST", "PORT", "ALLOWED_ORIGINS", "MATH_FONT", "CODE_FONT", "MAX_TITLE_LATEX",
    "EXPORT_FILENAME"]
  let values ← names.mapM fun name => do
    return (Text.ofString ("MATHDOCX_" ++ name), (← IO.getEnv ("MATHDOCX_" ++ name)).map Text.ofString)
  return Settings.ofEnvironment fun name => (values.lookup name).join

/-- Prints a message for the user and returns a status. -/
def say (message : Text) (status : UInt32) : IO UInt32 := do
  IO.eprintln (Text.toString message)
  return status

/-- How the command line is written. -/
def usage : Text := "usage: [-h] [-o OUTPUT] [--log-level LOG_LEVEL] [input]"

/-- What can go wrong with a file, in words. -/
def describe (fault : CommandLine.FileFault) : Text :=
  match fault with
  | .missing => "no such file"
  | .directory => "is a directory"
  | .denied => "cannot be used"

/-- Brings a run to its end. -/
def conclude (outcome : CommandLine.Outcome) : IO UInt32 := do
  match outcome with
  | .stopped .help => IO.println (Text.toString usage); return 0
  | .stopped .usage => say usage 2
  | .unknownLevel e => say e.message 1
  | .reported => say "the page cannot be read" 1
  | .fileFault fault => say (describe fault) 1
  | .documentFault fault => say fault.message 1
  | .written path document =>
    match ← writeFile path (Package.file document) with
    | .ok _ => return 0
    | .error fault => say (describe fault) 1

/-- Runs the program on its arguments. -/
def run (args : List String) : IO UInt32 := do
  match ← readSettings with
  | .error e => say e.message 1
  | .ok settings =>
    let line := args.map Text.ofString
    let content ← match CommandLine.parse line with
      | .ok arguments => readFile arguments.input
      | .error _ => pure (.error .missing)
    let files : CommandLine.Files := ⟨fun _ => content, fun _ => .ok ()⟩
    conclude (CommandLine.run ⟨noConverters, settings⟩ files line).value

end EquationExport.Program

/-- The program. -/
def main (args : List String) : IO UInt32 := EquationExport.Program.run args
