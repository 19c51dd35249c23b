import EquationExport.Text.Integer

/-!
# Settings

What can be configured. Each setting is read off a variable of the environment and has a default.
-/

namespace EquationExport

/-- What can be configured. -/
structure Settings where
  logLevel : Text
  host : Text
  port : Int
  /-- The pages that may use the service. -/
  allowedOrigins : List Text
  /-- The font of equations. -/
  mathFont : Text
  /-- The font of code and of equations that stay as they were written. -/
  codeFont : Text
  /-- A title at least this long is not taken for the source of an equation. -/
  maxTitleLatexLength : Int
  /-- The name under which a document is offered. -/
  exportFilename : Text

namespace Settings

/-- The items of a list that is written with commas, without the white space around each; empty ones do not count. -/
def readList (s : Text) : List Text :=
  ((Text.splitOn ',' s).map (·.trim)).filter fun item => !item.isEmpty

/-- The settings of an environment, given the value of each variable that is set. -/
def ofEnvironment (get? : Text → Option Text) : Except Text.NotInteger Settings := do
  let value (name absent : Text) : Text := (get? ("MATHDOCX_" ++ name)).getD absent
  let port ← (value "PORT" "8000").readInteger
  let maxTitleLatexLength ← (value "MAX_TITLE_LATEX" "5000").readInteger
  return {
    logLevel := value "LOG_LEVEL" "INFO"
    host := value "HOST" "127.0.0.1"
    port
    allowedOrigins := readList (value "ALLOWED_ORIGINS" "http://localhost:5173,http://127.0.0.1:5173")
    mathFont := value "MATH_FONT" "Cambria Math"
    codeFont := value "CODE_FONT" "Consolas"
    maxTitleLatexLength
    exportFilename := value "EXPORT_FILENAME" "document-export.docx" }

/-- The settings where no variable is set. -/
def standard : Settings where
  logLevel := "INFO"
  host := "127.0.0.1"
  port := 8000
  allowedOrigins := ["http://localhost:5173", "http://127.0.0.1:5173"]
  mathFont := "Cambria Math"
  codeFont := "Consolas"
  maxTitleLatexLength := 5000
  exportFilename := "document-export.docx"

end Settings

end EquationExport
