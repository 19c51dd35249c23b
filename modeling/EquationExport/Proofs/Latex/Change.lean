import EquationExport.Proofs.Latex.ControlSymbol
import EquationExport.Proofs.Latex.Fusion

/-!
# What the steps to the normal form change

The steps to the normal form of a source take away control words with the white space behind them, control symbols and
wide gaps, and put nothing, a space or a plain fraction there. A control symbol is taken away only where no backslash is
in front of it. A control word is taken away wherever its backslash stands, also where that is the second of a row
separator and the letters behind it are characters on their own. A reader is never left behind a lone backslash by what
is taken away, and only where nothing is put does one stay there.
-/

namespace EquationExport.Latex

open Reached

variable {before : Option CodePoint} {s old rest put word spaces gap : Text} {words : List Text} {c : CodePoint}
  {rule : Text.Rule} {r r' : Reached}

/-! ### The steps -/

/-- The expanded source without sizes. -/
def withoutSizes (s : Text) : Text := deleteWords sizeWords (expanded s)

/-- The source without sizes and styles. -/
def withoutStyles (s : Text) : Text := deleteWords styleWords (withoutSizes s)

/-- The source without sizes and styles, with plain spaces. -/
def withPlainSpaces (s : Text) : Text := plainSpacing (withoutStyles s)

/-- The source without all that is only taken away. -/
def withoutNegativeSpaces (s : Text) : Text := deleteNegativeSpace (withPlainSpaces s)

/-- The source that is in normal form but for wide gaps. -/
def withPlainFractions (s : Text) : Text := plainFractions (withoutNegativeSpaces s)

theorem normalize_eq (s : Text) : normalize s = ((withPlainFractions s).substitute gapRule).trim := rfl

/-! ### What the rules take away -/

theorem exists_of_negativeSpaceDeletion (h : negativeSpaceDeletion before s = some (put, rest)) :
    put = [] ∧ before ≠ some '\\' ∧ ∃ c ∈ ("!" : Text), s = ('\\' : CodePoint) :: c :: rest := by
  obtain ⟨behind, hbehind, heq⟩ := Option.map_eq_some_iff.1 h
  obtain ⟨rfl, rfl⟩ := Prod.mk.inj heq
  exact ⟨rfl, exists_of_skipSymbol? hbehind⟩

theorem exists_of_fractionRule (h : fractionRule before s = some (put, rest)) :
    put = "\\frac" ∧ ∃ word ∈ fractionWords, s = ('\\' : CodePoint) :: (word ++ rest) ∧ word ≠ [] ∧
      (∀ c ∈ word, c.isAsciiLetter = true) ∧ StartsToken rest := by
  obtain ⟨behind, hbehind, heq⟩ := Option.map_eq_some_iff.1 h
  obtain ⟨rfl, rfl⟩ := Prod.mk.inj heq
  exact ⟨rfl, exists_of_skipWord? hbehind⟩

theorem exists_of_gapRule (h : gapRule before s = some (put, rest)) :
    put = " " ∧ ∃ gap, s = gap ++ rest ∧ gap.length ≥ 2 ∧ ∀ c ∈ gap, isQuiet c = true := by
  obtain ⟨behind, hbehind, heq⟩ := Option.map_eq_some_iff.1 h
  obtain ⟨rfl, rfl⟩ := Prod.mk.inj heq
  exact ⟨rfl, exists_of_skipWideGap? hbehind⟩

/-! ### Changes -/

/-- What a step takes away behind the code point `before`, and what it puts there. -/
inductive Change (before : Option CodePoint) : Text → Text → Prop where
  /-- A control word and the white space behind it are deleted or become a space. -/
  | word {word spaces put : Text} : word ≠ [] → (∀ c ∈ word, c.isAsciiLetter = true) → (∀ c ∈ spaces, isQuiet c = true) →
    put = [] ∨ put = " " → Change before (('\\' : CodePoint) :: (word ++ spaces)) put
  /-- A control symbol is deleted or becomes a space. -/
  | symbol {c : CodePoint} {put : Text} : before ≠ some '\\' → isQuiet c = true → put = [] ∨ put = " " →
    Change before [('\\' : CodePoint), c] put
  /-- A fraction of a fixed style becomes a plain one. -/
  | fraction {word : Text} : word ≠ [] → (∀ c ∈ word, c.isAsciiLetter = true) →
    Change before (('\\' : CodePoint) :: word) "\\frac"
  /-- A gap becomes a space. -/
  | gap {gap : Text} : gap ≠ [] → (∀ c ∈ gap, isQuiet c = true) → Change before gap " "

/-- The rule makes such changes alone. -/
def Changes (rule : Text.Rule) : Prop :=
  ∀ {before old rest put}, old ≠ [] → rule before (old ++ rest) = some (put, rest) → Change before old put

theorem changes_wordDeletion (words : List Text) : Changes (wordDeletion words) := by
  intro before old rest put _ happly
  obtain ⟨rfl, word, -, spaces, hs, hne, hletters, hspaces, -⟩ := exists_of_wordDeletion happly
  obtain rfl : old = ('\\' : CodePoint) :: (word ++ spaces) := (List.append_left_inj rest).1 (by simpa using hs)
  exact .word hne hletters hspaces (.inl rfl)

theorem changes_spacingRule : Changes spacingRule := by
  intro before old rest put _ happly
  obtain ⟨rfl, ⟨word, hs, hne, hletters, -⟩ | ⟨hbefore, c, hc, hs⟩⟩ := exists_of_spacingRule happly
  · obtain rfl : old = ('\\' : CodePoint) :: word := (List.append_left_inj rest).1 (by simpa using hs)
    have hchange : Change before (('\\' : CodePoint) :: (word ++ [])) " " := .word hne hletters (by simp) (.inr rfl)
    rwa [List.append_nil] at hchange
  · obtain rfl : old = [('\\' : CodePoint), c] := (List.append_left_inj rest).1 (by simpa using hs)
    have hquiet : ∀ c ∈ (",;:" : Text), isQuiet c = true := by decide
    exact .symbol hbefore (hquiet c hc) (.inr rfl)

theorem changes_negativeSpaceDeletion : Changes negativeSpaceDeletion := by
  intro before old rest put _ happly
  obtain ⟨rfl, hbefore, c, hc, hs⟩ := exists_of_negativeSpaceDeletion happly
  obtain rfl : old = [('\\' : CodePoint), c] := (List.append_left_inj rest).1 (by simpa using hs)
  have hquiet : ∀ c ∈ ("!" : Text), isQuiet c = true := by decide
  exact .symbol hbefore (hquiet c hc) (.inl rfl)

theorem changes_fractionRule : Changes fractionRule := by
  intro before old rest put _ happly
  obtain ⟨rfl, word, -, hs, hne, hletters, -⟩ := exists_of_fractionRule happly
  obtain rfl : old = ('\\' : CodePoint) :: word := (List.append_left_inj rest).1 (by simpa using hs)
  exact .fraction hne hletters

theorem changes_gapRule : Changes gapRule := by
  intro before old rest put hold happly
  obtain ⟨rfl, gap, hs, -, hquiet⟩ := exists_of_gapRule happly
  obtain rfl : old = gap := (List.append_left_inj rest).1 hs
  exact .gap hold hquiet

/-! ### Readers behind a change -/

theorem backslash_not_mem_of_isQuiet (h : ∀ c ∈ s, isQuiet c = true) : ('\\' : CodePoint) ∉ s :=
  fun hmem => absurd (h _ hmem) (by decide)

theorem backslash_not_mem_of_letters (h : ∀ c ∈ s, c.isAsciiLetter = true) : ('\\' : CodePoint) ∉ s :=
  fun hmem => absurd (h _ hmem) (by decide)

/-- A reader that has read something else last stands behind no lone backslash. -/
theorem read_ne_of_getLast? (hs : s ≠ []) (h : s.getLast? ≠ some '\\') (r : Reached) : r.read s ≠ backslash :=
  fun hback => h (getLast?_of_read_eq_backslash hs hback)

theorem Change.ne_nil (h : Change before old put) : old ≠ [] := by
  cases h with
  | gap hne _ => exact hne
  | word | symbol | fraction => simp

/-- What is taken away has a backslash at its front only, if at all. -/
theorem Change.backslash_not_mem_tail (h : Change before old put) : ('\\' : CodePoint) ∉ old.tail := by
  cases h with
  | word _ hletters hspaces _ =>
    intro hmem
    rcases List.mem_append.1 hmem with hmem | hmem
    · exact backslash_not_mem_of_letters hletters hmem
    · exact backslash_not_mem_of_isQuiet hspaces hmem
  | symbol _ hc _ => exact backslash_not_mem_of_isQuiet (by simpa using hc)
  | fraction _ hletters => exact backslash_not_mem_of_letters hletters
  | gap _ hquiet => exact fun hmem => backslash_not_mem_of_isQuiet hquiet (List.mem_of_mem_tail hmem)

/-- Nothing or a space is put in the place of a command, a space in that of a gap, a plain fraction in that of a fraction. -/
theorem Change.put_cases (h : Change before old put) :
    (put = [] ∧ ('\\' : CodePoint) ∈ old) ∨ put = " " ∨ (put = "\\frac" ∧ ('\\' : CodePoint) ∈ old) := by
  cases h with
  | word _ _ _ hput | symbol _ _ hput => exact hput.imp (⟨·, List.mem_cons_self⟩) .inl
  | fraction => exact .inr (.inr ⟨rfl, List.mem_cons_self⟩)
  | gap => exact .inr (.inl rfl)

/-- Only a command is taken away without putting anything there. -/
theorem Change.mem_of_put_eq_nil (h : Change before old put) (hput : put = []) : ('\\' : CodePoint) ∈ old := by
  rcases h.put_cases with ⟨-, hmem⟩ | rfl | ⟨-, hmem⟩
  · exact hmem
  · exact absurd hput (by decide)
  · exact hmem

/-- No reader is left behind a lone backslash by what is taken away. -/
theorem Change.read_ne (h : Change before old put) (r : Reached) : r.read old ≠ backslash := by
  have htail := h.backslash_not_mem_tail
  have hmem : ∀ {c : CodePoint} {tail : Text}, tail ≠ [] → (c :: tail).getLast? = some '\\' → ('\\' : CodePoint) ∈ tail := by
    intro c tail hne hlast
    rw [List.getLast?_cons_of_ne_nil hne] at hlast
    exact List.mem_of_getLast? hlast
  refine read_ne_of_getLast? h.ne_nil (fun hlast => ?_) r
  cases h with
  | word hne _ _ _ => exact htail (hmem (List.append_ne_nil_of_left_ne_nil hne _) hlast)
  | symbol => exact htail (hmem (by simp) hlast)
  | fraction hne _ => exact htail (hmem hne hlast)
  | gap _ hquiet => exact backslash_not_mem_of_isQuiet hquiet (List.mem_of_getLast? hlast)

/-- A reader stays behind a lone backslash only where nothing is put. -/
theorem Change.read_put_ne (h : Change before old put) (hr : put = [] → r ≠ backslash) : r.read put ≠ backslash := by
  rcases h.put_cases with ⟨rfl, -⟩ | rfl | ⟨rfl, -⟩
  · exact hr rfl
  · exact read_ne_of_getLast? (by decide) (by decide) r
  · exact read_ne_of_getLast? (by decide) (by decide) r

/-- Behind a change readers are in step, unless nothing is put behind a lone backslash. -/
theorem Change.inStep (h : Change before old put) (hr' : put = [] → r' ≠ backslash) : InStep (r.read old) (r'.read put) :=
  iff_of_false (h.read_ne r) (h.read_put_ne hr')

end EquationExport.Latex
