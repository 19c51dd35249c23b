import EquationExport.CommandLine
import EquationExport.Package
import EquationExport.Proofs.Document.Acceptance

/-!
# How runs of the program end

A run ends in order with the document of the page where it was asked for, or with a failure that has been reported and the
files as they were. Four things stop it in another way, each before anything is written: a log level that is unknown, a page
that is there and cannot be read from its file, a page that its reader rejects, and a document that cannot be written where
it was asked for.
-/

namespace EquationExport.CommandLine

variable {s : Document.Surroundings} {files : Files} {line : List Text} {arguments : Arguments} {path page : Text}
  {outcome : Outcome}

/-! ### Stages of a run -/

/-- The name of the level that is set: the one that is asked for, unless it is empty. -/
def levelName (asked : Option Text) (default : Text) : Text :=
  match asked with
  | some (c :: name) => c :: name
  | _ => default

/-- A level is set exactly if its name is known in capitals. -/
theorem exists_setLevel_iff (logger : Logger) (asked : Option Text) (default : Text) :
    (∃ changed, logger.setLevel asked default = .ok changed) ↔ (levelName asked default).upper ∈ logLevels.map (·.1) := by
  have hset : logger.setLevel asked default =
      (logLevel (levelName asked default)).map fun level => ⟨level, max logger.handlers 1⟩ := by
    unfold Logger.setLevel levelName
    cases asked with
    | none => rfl
    | some name => cases name <;> rfl
  rw [hset, logLevel, List.mem_map]
  cases hfound : logLevels.find? (·.1 == (levelName asked default).upper) with
  | none =>
    refine iff_of_false (by rintro ⟨changed, hchanged⟩; cases hchanged) ?_
    rintro ⟨entry, hentry, hname⟩
    exact List.find?_eq_none.1 hfound entry hentry (by simpa using hname)
  | some entry =>
    refine iff_of_true ⟨_, rfl⟩ ⟨entry, List.mem_of_find?_eq_some hfound, ?_⟩
    simpa using List.find?_some hfound

/-- A page is read, or its absence or its encoding is reported, or its file cannot be used. -/
theorem readPage_cases (files : Files) (path : Text) :
    (∃ bytes page, files.read path = .ok bytes ∧ readPage files path = .ok page) ∨
    ((files.read path = .error .missing ∨ ∃ bytes, files.read path = .ok bytes) ∧ readPage files path = .error .reported) ∨
    ∃ fault, files.read path = .error fault ∧ fault ≠ .missing ∧ readPage files path = .error (.fileFault fault) := by
  unfold readPage
  cases hread : files.read path with
  | error fault => cases fault with
    | missing => exact .inr (.inl ⟨.inl rfl, rfl⟩)
    | directory => exact .inr (.inr ⟨.directory, rfl, by decide, rfl⟩)
    | denied => exact .inr (.inr ⟨.denied, rfl, by decide, rfl⟩)
  | ok bytes =>
    cases hpage : Text.ofFile? bytes with
    | none => exact .inr (.inl ⟨.inr ⟨bytes, rfl⟩, by simp only [hpage]⟩)
    | some page => exact .inl ⟨bytes, page, rfl, by simp only [hpage]⟩

/-- A page that is not rejected becomes a document, or it holds a character that is forbidden. -/
theorem create_cases (s : Document.Surroundings) (page : Text) :
    (∃ outline, Document.outline page = .ok outline ∧ ((∃ document, (Document.create s page).value = .ok document) ∨
      (Document.create s page).value = .error (.unwritable .forbiddenCharacter))) ∨
    ∃ rejection, Document.outline page = .error rejection ∧ (Document.create s page).value = .error (.rejected rejection) := by
  cases houtline : Document.outline page with
  | error rejection =>
    refine .inr ⟨rejection, rfl, ?_⟩
    rw [Document.create, houtline]
    rfl
  | ok outline =>
    refine .inl ⟨outline, rfl, ?_⟩
    by_cases hwritable : Document.Writable (Document.textsOf s outline)
    · exact .inl (Document.exists_create_of_writable houtline hwritable)
    · exact .inr (Document.create_eq_error houtline hwritable)

/-- What a run comes to, stage after stage. -/
theorem value_run (h : parse line = .ok arguments) :
    (run s files line).value = match Logger.fresh.setLevel arguments.logLevel s.settings.logLevel with
      | .error e => .unknownLevel e
      | .ok _ => match readPage files arguments.input with
        | .error outcome => outcome
        | .ok page => save files arguments.output (Document.create s page).value := by
  simp only [run, h]
  cases Logger.fresh.setLevel arguments.logLevel s.settings.logLevel with
  | error e => rfl
  | ok logger => cases readPage files arguments.input <;> rfl

/-! ### Ends -/

/-- The files as a run leaves them. -/
def Files.after (files : Files) : Outcome → Files
  | .written path document => { files with read := Function.update files.read path (.ok (Package.file document)) }
  | _ => files

/--
A run ends in order: with status 0 and the document of the page in the file for the output, or with status 1 and this file
as it was.
-/
inductive EndsInOrder (s : Document.Surroundings) (files : Files) (arguments : Arguments) (outcome : Outcome) : Prop where
  | saved {page : Text} {document : Document.Exported} (hpage : readPage files arguments.input = .ok page)
      (hdocument : (Document.create s page).value = .ok document) (hstatus : outcome.status? = some 0)
      (hfile : (files.after outcome).read arguments.output = .ok (Package.file document))
  | failed (hstatus : outcome.status? = some 1)
      (hfile : (files.after outcome).read arguments.output = files.read arguments.output)

theorem EndsInOrder.status? (h : EndsInOrder s files arguments outcome) : outcome.status? ≠ none := by
  intro hnone
  cases h with
  | saved _ _ hstatus => cases hnone.symm.trans hstatus
  | failed hstatus => cases hnone.symm.trans hstatus

theorem endsInOrder_reported : EndsInOrder s files arguments .reported := .failed rfl rfl

theorem endsInOrder_written {document : Document.Exported} (hpage : readPage files arguments.input = .ok page)
    (hdocument : (Document.create s page).value = .ok document) :
    EndsInOrder s files arguments (.written arguments.output document) :=
  .saved hpage hdocument rfl (Function.update_self ..)

/-- What a run needs so that it ends in order. -/
structure Usable (s : Document.Surroundings) (files : Files) (arguments : Arguments) : Prop where
  /-- The level, in capitals, is known. -/
  level : (levelName arguments.logLevel s.settings.logLevel).upper ∈ logLevels.map (·.1)
  /-- The file for the page is missing, or it can be read. -/
  input : files.read arguments.input = .error .missing ∨ ∃ bytes, files.read arguments.input = .ok bytes
  /-- A page that is read is not rejected. -/
  page : ∀ page, readPage files arguments.input = .ok page → ∃ outline, Document.outline page = .ok outline
  /-- A document that is created can be written. -/
  output : ∀ page document, readPage files arguments.input = .ok page → (Document.create s page).value = .ok document →
    files.write arguments.output = .ok ()

theorem Usable.exists_level (h : Usable s files arguments) :
    ∃ changed, Logger.fresh.setLevel arguments.logLevel s.settings.logLevel = .ok changed :=
  (exists_setLevel_iff Logger.fresh arguments.logLevel s.settings.logLevel).2 h.level

/-- Once a page has been read, the end depends on the page and on the file for the output. -/
theorem save_cases {bytes : ByteArray} (hlevel : (levelName arguments.logLevel s.settings.logLevel).upper ∈ logLevels.map (·.1))
    (hbytes : files.read arguments.input = .ok bytes) (hpage : readPage files arguments.input = .ok page)
    (heq : outcome = save files arguments.output (Document.create s page).value) :
    (Usable s files arguments ∧ EndsInOrder s files arguments outcome) ∨
    (¬ Usable s files arguments ∧ outcome.status? = none ∧ files.after outcome = files) := by
  have hsame : ∀ {other}, readPage files arguments.input = .ok other → other = page := fun hother =>
    Except.ok.inj (hother.symm.trans hpage)
  rcases create_cases s page with ⟨outline, houtline, hcreated⟩ | ⟨rejection, hrejection, hrejected⟩
  · have houtlined : ∀ other, readPage files arguments.input = .ok other → ∃ outline, Document.outline other = .ok outline :=
      fun other hother => ⟨outline, hsame hother ▸ houtline⟩
    rcases hcreated with ⟨document, hdocument⟩ | hrefused
    · rw [hdocument] at heq
      cases hwrite : files.write arguments.output with
      | ok =>
        simp only [save, hwrite] at heq
        subst heq
        exact .inl ⟨⟨hlevel, .inr ⟨bytes, hbytes⟩, houtlined, fun _ _ _ _ => hwrite⟩,
          endsInOrder_written hpage hdocument⟩
      | error fault =>
        simp only [save, hwrite] at heq
        subst heq
        refine .inr ⟨fun husable => ?_, rfl, rfl⟩
        cases hwrite.symm.trans (husable.output page document hpage hdocument)
    · rw [hrefused] at heq
      subst heq
      refine .inl ⟨⟨hlevel, .inr ⟨bytes, hbytes⟩, houtlined, fun other document hother hdocument => ?_⟩,
        endsInOrder_reported⟩
      cases hsame hother
      cases hrefused.symm.trans hdocument
  · rw [hrejected] at heq
    subst heq
    refine .inr ⟨fun husable => ?_, rfl, rfl⟩
    obtain ⟨outline, houtline⟩ := husable.page page hpage
    cases hrejection.symm.trans houtline

/-- A run has what it needs and ends in order, or it lacks something and is broken off with nothing written. -/
theorem run_cases (h : parse line = .ok arguments) :
    (Usable s files arguments ∧ EndsInOrder s files arguments (run s files line).value) ∨
    (¬ Usable s files arguments ∧ (run s files line).value.status? = none ∧ files.after (run s files line).value = files) := by
  have heq : (run s files line).value = _ := value_run h
  cases hset : Logger.fresh.setLevel arguments.logLevel s.settings.logLevel with
  | error e =>
    simp only [hset] at heq
    rw [heq]
    refine .inr ⟨fun husable => ?_, rfl, rfl⟩
    obtain ⟨changed, hchanged⟩ := husable.exists_level
    cases hset.symm.trans hchanged
  | ok changed =>
    have hlevel := (exists_setLevel_iff Logger.fresh arguments.logLevel s.settings.logLevel).1 ⟨changed, hset⟩
    simp only [hset] at heq
    rcases readPage_cases files arguments.input with
      ⟨bytes, page, hbytes, hpage⟩ | ⟨hread, hpage⟩ | ⟨fault, hread, hne, hpage⟩
    · exact save_cases hlevel hbytes hpage (by simpa only [hpage] using heq)
    · have hnone : ∀ {other}, readPage files arguments.input ≠ .ok other := fun hother => by cases hpage.symm.trans hother
      simp only [hpage] at heq
      rw [heq]
      exact .inl ⟨⟨hlevel, hread, fun _ hother => absurd hother hnone, fun _ _ hother => absurd hother hnone⟩,
        endsInOrder_reported⟩
    · simp only [hpage] at heq
      rw [heq]
      refine .inr ⟨fun husable => ?_, rfl, rfl⟩
      rcases husable.input with hmissing | ⟨bytes, hbytes⟩
      · exact hne (Except.error.inj (hread.symm.trans hmissing))
      · cases hread.symm.trans hbytes

/--
A run whose command line is understood ends in order exactly if the log level is known, the file for the page is missing or can
be read, a page that is read is not rejected, and a document that is created can be written. If not, the run is broken off
without a status, and all files are as they were.
-/
theorem run_endsInOrder_iff (h : parse line = .ok arguments) :
    (EndsInOrder s files arguments (run s files line).value ↔ Usable s files arguments) ∧
    (¬ Usable s files arguments → (run s files line).value.status? = none ∧ files.after (run s files line).value = files) := by
  rcases run_cases h with ⟨husable, hends⟩ | ⟨hnot, hstatus, hfiles⟩
  · exact ⟨iff_of_true hends husable, fun hnot => absurd husable hnot⟩
  · exact ⟨iff_of_false (fun hends => hends.status? hstatus) hnot, fun _ => ⟨hstatus, hfiles⟩⟩

/-- A single file with a short page; every file can be written. -/
def pageFile : Files where
  read path := if path = "in.html" then .ok "<p>x</p>".toUTF8 else .error .missing
  write _ := .ok ()

/-- With a level that is known, in any case, the page of the file becomes a document. -/
theorem run_endsInOrder_debug :
    let line : List Text := ["in.html", "-o", "out.docx", "--log-level", "debug"]
    let arguments : Arguments := ⟨"in.html", "out.docx", some "debug"⟩
    parse line = .ok arguments ∧ (∃ page, readPage pageFile arguments.input = .ok page) ∧
      EndsInOrder Document.unaided pageFile arguments (run Document.unaided pageFile line).value := by
  intro line arguments
  have hparse : parse line = .ok arguments := rfl
  have htext : Text.ofFile? "<p>x</p>".toUTF8 = some ("<p>x</p>" : Text) := by decide +kernel
  have hpage : readPage pageFile arguments.input = .ok "<p>x</p>" := by
    have hread : pageFile.read arguments.input = .ok "<p>x</p>".toUTF8 := rfl
    simp only [readPage, hread, htext]
  have houtline : (Document.outline "<p>x</p>").toOption.any (fun outline => !outline.isEmpty) = true := by decide +kernel
  have husable : Usable Document.unaided pageFile arguments := by
    refine ⟨by decide, .inr ⟨_, rfl⟩, fun page hother => ?_, fun _ _ _ _ => rfl⟩
    obtain rfl := Except.ok.inj (hpage.symm.trans hother)
    obtain ⟨outline, hok, -⟩ := Document.exists_ok_of_any houtline
    exact ⟨outline, hok⟩
  exact ⟨hparse, ⟨_, hpage⟩, (run_endsInOrder_iff hparse).1.2 husable⟩

/-- With a level that is unknown the run is broken off. -/
theorem run_unknownLevel :
    let line : List Text := ["in.html", "-o", "out.docx", "--log-level", "LOUD"]
    let arguments : Arguments := ⟨"in.html", "out.docx", some "LOUD"⟩
    parse line = .ok arguments ∧ (run Document.unaided pageFile line).value = .unknownLevel ⟨"LOUD"⟩ ∧
      ¬ EndsInOrder Document.unaided pageFile arguments (run Document.unaided pageFile line).value := by
  intro line arguments
  have hparse : parse line = .ok arguments := rfl
  have hvalue : (run Document.unaided pageFile line).value = .unknownLevel ⟨"LOUD"⟩ := rfl
  refine ⟨hparse, hvalue, fun hends => hends.status? ?_⟩
  rw [hvalue]
  rfl

end EquationExport.CommandLine
