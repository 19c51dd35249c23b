import EquationExport.Document.Create

/-!
# The service

Two requests are served besides the greeting: a page is turned into a document, and a formula into equation
markup. A request that does not have its form is refused with what is wrong with it; a request that cannot be
met is refused with a status.
-/

namespace EquationExport.Service

/-- Why a request is refused. -/
inductive Refusal where
  /-- The request does not have its form. -/
  | malformed (problems : List Problem)
  | status (code : Nat) (detail : Text)
  /-- The name of the document has a character that no header can hold. -/
  | unencodable

/-- A document as it is sent. -/
structure Download where
  mediaType : Text
  disposition : Text
  document : Document.Exported

/-- What the service says of itself. -/
def greeting : Text := "KaTeX → DOCX 导出 API 运行正常！"

/-- The media type of documents. -/
def mediaType : Text := "application/vnd.openxmlformats-officedocument.wordprocessingml.document"

/-- A header can hold the code points up to U+00FF. -/
def encodable (s : Text) : Bool := s.all fun c => c.val < 0x100

/-- A document as it is sent under the configured name. -/
def download (settings : Settings) (document : Document.Exported) : Except Refusal Download :=
  let disposition := ("attachment; filename=\"" : Text) ++ settings.exportFilename ++ ("\"" : Text)
  if encodable disposition then .ok ⟨mediaType, disposition, document⟩ else .error .unencodable

/-- The page of a request for a document. -/
def readPage (p : Payload) : Except (List Problem) (Option Text) :=
  p.asRecord fun fields => Payload.optional Payload.readOptionalText fields "html" none

/-- How a document that cannot be created is reported. -/
def Refusal.ofFault : Document.Fault → Refusal
  | .unwritable e => .status 400 e.message
  | _ => .status 500 "Failed to generate DOCX"

/-- Serves a request for a document. -/
def serveDocument (s : Document.Surroundings) (request : Payload) : Traced (Except Refusal Download) :=
  match readPage request with
  | .error problems => pure (.error (.malformed problems))
  | .ok html =>
    let html : Text := html.getD []
    if html.isBlank then pure (.error (.status 400 "Missing HTML"))
    else do
      match ← Document.create s html with
      | .ok document => pure (download s.settings document)
      | .error fault => pure (.error (.ofFault fault))

/-- The formula of a request for equation markup, and whether it is set off. -/
def readFormula (p : Payload) : Except (List Problem) (Text × Bool) :=
  p.asRecord fun fields =>
    Payload.both (Payload.required Payload.readText fields "latex")
      (Payload.optional Payload.readTruth fields "display_mode" false)

/-- Serves a request for equation markup; there is none if the formula cannot be converted. -/
def serveMarkup (c : Converters) (request : Payload) : Traced (Except Refusal (Option Text)) :=
  match readFormula request with
  | .error problems => pure (.error (.malformed problems))
  | .ok (latex, display) =>
    if latex.isBlank then pure (.error (.status 400 "LaTeX cannot be empty."))
    else do pure (.ok (← ommlOfLatex c latex display))

end EquationExport.Service
