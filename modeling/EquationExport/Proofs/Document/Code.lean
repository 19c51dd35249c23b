import EquationExport.Proofs.Document.Acceptance
import EquationExport.Proofs.Document.Tree
import EquationExport.Proofs.Text.Passing
import EquationExport.Proofs.Xml.Recogniser

/-!
# Code is kept line by line

Preformatted text becomes one paragraph of code, with a run for each line and a break behind each but the last. Read back from
the document it is the text again, cleaned, with a line feed at the end of every line and without the last line end. This
is so whatever ends the lines of the text, and also if lines are empty or if there is no text at all.
-/

namespace EquationExport

namespace Text

variable {s : Text}

/-! ### Lines -/

/-- What has been split is joined again. -/
theorem join_splitOn (sep : CodePoint) (s : Text) : join [sep] (splitOn sep s) = s := by
  have hcons : ∀ (c : CodePoint) (piece : Text) (pieces : List Text),
      join [sep] ((c :: piece) :: pieces) = c :: join [sep] (piece :: pieces) := by
    intro c piece pieces
    cases pieces <;> rfl
  induction s with
  | nil => rfl
  | cons c s ih =>
    obtain ⟨piece, pieces, hsplit⟩ := Xml.exists_cons_of_splitOn sep s
    rw [hsplit] at ih
    rw [splitOn, hsplit]
    dsimp only
    split
    · next heq =>
      subst heq
      exact congrArg (c :: ·) ih
    · rw [hcons, ih]

theorem unixLines_cons (c : CodePoint) (h : dropPrefix? (c :: s) "\r\n" = none) :
    unixLines (c :: s) = (if c = '\r' then ('\n' : CodePoint) else c) :: unixLines s := by
  have hrule : (dropPrefix? (c :: s) "\r\n").map (("\n" : Text), ·) = none := by rw [h]; rfl
  have hreplace : replace (c :: s) "\r\n" "\n" = c :: s.replace "\r\n" "\n" := substitute_cons hrule
  rw [unixLines, hreplace]
  rfl

theorem normalizeLineEnds_return (s : Text) : Xml.normalizeLineEnds ('\r' :: s) =
    if s.head? = some ('\n' : CodePoint) then Xml.normalizeLineEnds s else ('\n' : CodePoint) :: Xml.normalizeLineEnds s := rfl

/-- Line ends are made line feeds as they are when markup is read. -/
theorem unixLines_eq_normalizeLineEnds (s : Text) : s.unixLines = Xml.normalizeLineEnds s := by
  induction s with
  | nil => rfl
  | cons c s ih =>
    have hreturns : dropPrefix? (c :: s) "\r\n" = if c = '\r' then dropPrefix? s "\n" else none := by
      rw [show ("\r\n" : Text) = ('\r' : CodePoint) :: ("\n" : Text) from rfl, dropPrefix?]
    by_cases hreturn : c = '\r'
    · subst hreturn
      rw [normalizeLineEnds_return]
      by_cases hfeed : s.head? = some ('\n' : CodePoint)
      -- The return goes with the feed behind it, which is there by itself as well.
      · obtain ⟨t, rfl⟩ := List.head?_eq_some_iff.1 hfeed
        have hboth : replace ("\r\n" ++ t) "\r\n" "\n" = "\n" ++ replace t "\r\n" "\n" :=
          substitute_replacing_append (by decide) (dropPrefix?_append "\r\n" t)
        have hfront : unixLines (('\r' : CodePoint) :: '\n' :: t) = ('\n' : CodePoint) :: unixLines t :=
          congrArg (replacePoint · '\r' '\n') hboth
        rw [if_pos hfeed, ← ih, hfront, unixLines_cons '\n' rfl]
        rfl
      · have hnone : dropPrefix? s "\n" = none := by
          cases s with
          | nil => rfl
          | cons d s => exact Xml.not_startsWith_of_ne fun heq => hfeed (congrArg some heq)
        rw [if_neg hfeed, unixLines_cons _ (by rw [hreturns, if_pos rfl, hnone]), if_pos rfl, ih]
    · rw [Xml.normalizeLineEnds, if_neg hreturn, unixLines_cons c (by rw [hreturns, if_neg hreturn]), if_neg hreturn, ih]

theorem return_notMem_normalizeLineEnds (s : Text) : ('\r' : CodePoint) ∉ Xml.normalizeLineEnds s := by
  induction s with
  | nil => exact List.not_mem_nil
  | cons c s ih =>
    rw [Xml.normalizeLineEnds]
    split_ifs with hreturn
    · exact ih
    · exact List.not_mem_cons_of_ne_of_not_mem (by decide) ih
    · exact List.not_mem_cons_of_ne_of_not_mem (Ne.symm hreturn) ih

theorem endsWith_lineFeed (s : Text) : s.endsWith "\n" = true ↔ s.getLast? = some ('\n' : CodePoint) := by
  rw [List.getLast?_eq_head?_reverse, endsWith, show List.reverse ("\n" : Text) = [('\n' : CodePoint)] from rfl]
  cases s.reverse with
  | nil => exact iff_of_false (by decide) (by simp)
  | cons c rest =>
    rw [startsWith, dropPrefix?, List.head?_cons, Option.some.injEq]
    by_cases hfeed : c = '\n' <;> simp [hfeed, dropPrefix?]

theorem replacePoint_of_notMem {a b : CodePoint} (h : a ∉ s) : s.replacePoint a b = s := by
  refine (List.map_congr_left fun c hc => if_neg ?_).trans (List.map_id s)
  rintro rfl
  exact h hc

end Text

namespace Document

variable {code : Text}

/-! ### The lines of code -/

/-- The lines of code one after the other are the cleaned code without the last line end. -/
theorem join_codeLines (code : Text) :
    let text := Xml.normalizeLineEnds code.normalizePreformatted
    Text.join "\n" (codeLines code) = if text.getLast? = some ('\n' : CodePoint) then text.dropLast else text := by
  intro text
  have hjoin : ∀ s : Text, Text.join "\n" (Text.splitOn '\n' s) = s := Text.join_splitOn '\n'
  rw [codeLines, hjoin, Text.unixLines_eq_normalizeLineEnds]
  exact if_congr (Text.endsWith_lineFeed text) rfl rfl

theorem codeLines_ne_nil (code : Text) : codeLines code ≠ [] := by
  intro hnil
  obtain ⟨_, _, hlines⟩ := Xml.exists_cons_of_splitOn '\n' _
  exact List.cons_ne_nil _ _ (hlines.symm.trans hnil)

theorem return_notMem_codeLines {line : Text} (h : line ∈ codeLines code) : ('\r' : CodePoint) ∉ line := by
  intro hreturn
  have hmem := mem_unixLines_of_mem_codeLines h hreturn
  rw [Text.unixLines_eq_normalizeLineEnds] at hmem
  exact Text.return_notMem_normalizeLineEnds _ hmem

theorem writable_codeLines (h : Xml.isLegal code.sanitize = true) : Writable (codeLines code) := by
  intro line hline
  rw [Xml.isLegal_iff]
  intro c hc
  rcases mem_of_mem_codeLines hline hc with hclean | rfl
  · rcases Text.mem_of_mem_replacePoint hclean with hsanitized | rfl
    · exact Xml.isLegal_iff.1 h c hsanitized
    · decide
  · decide

/-! ### The runs of code -/

section Runs

variable (s : Surroundings)

/-- The runs of lines of code, in the font of code and with a break behind each but the last. -/
def codeRuns : List Text → List Run
  | [] => []
  | [line] => [s.run line ⟨false, false, true⟩ false]
  | line :: rest => s.run line ⟨false, false, true⟩ true :: codeRuns rest

/-- In what is composed of lines of code each of them is a run. -/
theorem pieces_codePieces (lines : List Text) : (codePieces lines).flatMap (·.pieces s) = (codeRuns s lines).map .run := by
  induction lines with
  | nil => rfl
  | cons line rest ih =>
    cases rest with
    | nil => rfl
    | cons next rest => exact congrArg (Piece.run (s.run line ⟨false, false, true⟩ true) :: ·) ih

theorem texts_codePieces (lines : List Text) :
    (codePieces lines).flatMap (·.texts s) = (codeRuns s lines).flatMap (·.texts) := by
  induction lines with
  | nil => rfl
  | cons line rest ih =>
    cases rest with
    | nil => rfl
    | cons next rest => exact congrArg ([line, s.settings.codeFont] ++ ·) ih

/-- The runs can be written if the lines can, and so can the font of code. -/
theorem writable_codeRuns_iff {lines : List Text} (hne : lines ≠ []) :
    Writable ((codeRuns s lines).flatMap (·.texts)) ↔ Writable lines ∧ Writable [s.settings.codeFont] := by
  have hline : ∀ line broken, Writable (s.run line ⟨false, false, true⟩ broken).texts ↔
      Writable [line] ∧ Writable [s.settings.codeFont] := fun line _ => @writable_append_iff [line] [s.settings.codeFont]
  induction lines with
  | nil => exact absurd rfl hne
  | cons line rest ih =>
    cases rest with
    | nil => rw [codeRuns, List.flatMap_singleton, hline]
    | cons next rest =>
      have hlines : Writable (line :: next :: rest) ↔ Writable [line] ∧ Writable (next :: rest) :=
        @writable_append_iff [line] (next :: rest)
      refine writable_append_iff.trans ((and_congr (hline line true) (ih (List.cons_ne_nil _ _))).trans ?_)
      rw [hlines]
      exact and_and_right.symm

/-- The breaks behind the lines are read as line feeds between them. -/
theorem text_codeRuns {lines : List Text} (h : ∀ line ∈ lines, ('\r' : CodePoint) ∉ line) :
    (codeRuns s lines).flatMap (·.text) = Text.join "\n" lines := by
  have htext : ∀ line ∈ lines, ∀ broken, (s.run line ⟨false, false, true⟩ broken).text =
      line ++ if broken then ("\n" : Text) else [] :=
    fun line hline broken => congrArg (· ++ _) (Text.replacePoint_of_notMem (h line hline))
  induction lines with
  | nil => rfl
  | cons line rest ih =>
    cases rest with
    | nil => exact (List.flatMap_singleton _ _).trans ((htext line List.mem_cons_self false).trans (List.append_nil line))
    | cons next rest =>
      have hrest := ih (fun _ hmem => h _ (List.mem_cons_of_mem _ hmem)) fun _ hmem => htext _ (List.mem_cons_of_mem _ hmem)
      exact congrArg₂ (· ++ ·) (htext line List.mem_cons_self true) hrest

/-- Lines of code are composed to one paragraph of their runs. -/
theorem yields_codeBlock {lines : List Text} (hne : lines ≠ []) :
    Yields (composeBlocks s [.ofContent .code (codePieces lines)]) ((codeRuns s lines).flatMap (·.texts)) []
      (· = [.paragraph ⟨.code, .leaveOut, (codeRuns s lines).map .run⟩]) := by
  have hruns : codeRuns s lines ≠ [] := by
    match lines with
    | [_] | _ :: _ :: _ => exact List.cons_ne_nil _ _
  have hblock : Yields (composeBlock s (.ofContent .code (codePieces lines))) ((codeRuns s lines).flatMap (·.texts)) []
      (· = [.paragraph ⟨.code, .leaveOut, (codeRuns s lines).map .run⟩]) := by
    rw [← texts_codePieces, ← calls_codePieces s lines, Block.ofContent, composeBlock]
    refine (yields_composeInlines s (codePieces lines)).map _ fun pieces hpieces => ?_
    rw [pieces_codePieces] at hpieces
    rw [eq_map_run_of_untokened hpieces, Paragraph.settle, if_neg (by simpa using hruns)]
  have hnone : Yields (composeBlocks s []) [] [] (· = []) := by
    rw [composeBlocks]
    exact .pure _
  rw [composeBlocks, ← List.append_nil ((codeRuns s lines).flatMap (·.texts)), ← List.append_nil ([] : List Call)]
  refine hblock.bind fun first hfirst => hnone.map _ fun later hlater => ?_
  rw [hfirst, hlater, List.append_nil]

end Runs

/-- Code whose characters can be written once it is cleaned becomes one paragraph, unless the font of code cannot be written.
The text of the paragraph is the cleaned code, with line feeds at the ends of the lines and without the last one of them. -/
theorem code_read_back (s : Surroundings) {code : Text} (h : Xml.isLegal code.sanitize = true) :
    let text := Xml.normalizeLineEnds code.normalizePreformatted
    Yields (composeBlocks s [.ofContent .code (codePieces (codeLines code))]) [s.settings.codeFont] [] fun blocks =>
      ∃ p : Paragraph Piece, blocks = [.paragraph p] ∧ p.kind = .code ∧
        ∀ (scope : Xml.Scope) (root : Xml.Tag), KnowsWords scope → ∃ read : Xml.Node,
          Xml.readContent? root scope (writeBlocks Piece.pending blocks) = some (none, [read]) ∧
          paragraphText read = if text.getLast? = some ('\n' : CodePoint) then text.dropLast else text := by
  intro text
  have hne := codeLines_ne_nil code
  have hlines := writable_codeLines h
  have hyields := yields_codeBlock s hne
  have hwritable : Writable [s.settings.codeFont] ↔ Writable ((codeRuns s (codeLines code)).flatMap (·.texts)) :=
    ((writable_codeRuns_iff s hne).trans (and_iff_right hlines)).symm
  refine ⟨fun hfont r => ?_, fun hfont => hyields.refused (mt hwritable.2 hfont)⟩
  obtain ⟨blocks, registry, hvalue, hcalls, rfl⟩ := hyields.ok (hwritable.1 hfont) r
  refine ⟨_, registry, hvalue, hcalls, _, rfl, rfl, fun scope root hscope => ?_⟩
  have hcontent : Writable (((codeRuns s (codeLines code)).map Piece.run).flatMap (·.pendingRun.texts)) := by
    rw [List.flatMap_map]
    exact hwritable.1 hfont
  obtain ⟨hread, htext⟩ := readContent_paragraph hscope root (p := ⟨.code, .leaveOut, _⟩) hcontent
  refine ⟨_, ?_, htext.trans ?_⟩
  · rw [writeBlocks, List.flatMap_singleton, Block.write]
    exact hread
  · rw [← join_codeLines, ← text_codeRuns s fun _ => return_notMem_codeLines, List.flatMap_map]
    rfl

/-- Lines with a tab and a hard space in them, one of them empty, that end in each of the ways a line can end. -/
theorem code_read_back_mixed :
    let s : Surroundings := ⟨⟨fun _ => none, fun _ _ => none⟩, ⟨[], [], 8000, [], "Cambria Math", "Consolas", 5000, []⟩⟩
    let code : Text := "if a:\r\n\tb\u00A0= 1\r\rc\n\n"
    Xml.isLegal code.sanitize = true ∧ ∃ blocks registry read,
      (composeBlocks s [.ofContent .code (codePieces (codeLines code))]).valueFrom .empty = .ok (blocks, registry) ∧
      Xml.readContent? (wordTag "body" []) Omml.knownQualifiers (writeBlocks Piece.pending blocks) = some (none, [read]) ∧
      paragraphText read = "if a:\n\tb = 1\n\nc\n" := by
  intro s code
  have hlegal : Xml.isLegal code.sanitize = true := by decide +kernel
  have hfont : Writable [s.settings.codeFont] := by decide +kernel
  have hscope : KnowsWords Omml.knownQualifiers := by unfold KnowsWords; decide +kernel
  obtain ⟨blocks, registry, hvalue, -, _, -, -, hreads⟩ := (code_read_back s hlegal).ok hfont .empty
  obtain ⟨read, hread, htext⟩ := hreads Omml.knownQualifiers (wordTag "body" []) hscope
  refine ⟨hlegal, blocks, registry, read, hvalue, hread, htext.trans ?_⟩
  decide +kernel

end Document

end EquationExport
