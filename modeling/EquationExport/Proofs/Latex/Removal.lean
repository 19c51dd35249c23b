import EquationExport.Proofs.Latex.Formation
import EquationExport.Proofs.Latex.Row

/-!
# What is left of the commands that are taken away

No words of sizes, styles, spaces and fractions of a fixed style are left in the normal form, unless a deletion puts one
together. A narrow or negative space is left over exactly where a row separator stands directly in front of it: the last
backslash of the separator is taken for the one that escapes it, and `a\\\,b` stays as it is.
-/

namespace EquationExport.Latex

open Reached

variable {before : Option CodePoint} {s t old rest put out : Text} {places : List (Text × Text)} {rule : Text.Rule} {c : CodePoint}

/-! ### Control symbols that are kept -/

/-- A reader stays in step with the reader of what the rule makes of a source. -/
def KeepsStep (rule : Text.Rule) : Prop :=
  ∀ {before out old rest put r}, rule before (old ++ rest) = some (put, rest) → old ≠ [] →
    (r = backslash → before = some '\\') → InStep r (token.read out) → put = [] → token.read out ≠ backslash

/-- The rule is never applied at this character, which is neither a letter nor one of those that rules put. -/
structure Untouched (rule : Text.Rule) (c : CodePoint) : Prop where
  point : ∀ before rest, rule before (c :: rest) = none
  symbol : c.isAsciiLetter = false
  ne_backslash : c ≠ '\\'
  ne_space : c ≠ ' '

/-- A control symbol in a source, behind `r` and the code point `before`, where the rule says nothing. -/
def StandsUntouched (rule : Text.Rule) (before : Option CodePoint) (r : Reached) (c : CodePoint) (s : Text) : Prop :=
  ∃ front rest, s = front ++ ('\\' : CodePoint) :: c :: rest ∧ r.read front ≠ backslash ∧
    rule (front.getLast?.or before) (('\\' : CodePoint) :: c :: rest) = none

theorem standsUntouched_cons {d : CodePoint} {r : Reached} (hnone : rule before (d :: s) = none) :
    StandsUntouched rule before r c (d :: s) ↔
      (r.next d = backslash ∧ ∃ rest, s = c :: rest) ∨ StandsUntouched rule (some d) (r.next d) c s := by
  constructor
  · rintro ⟨front, rest, heq, hread, hsilent⟩
    cases front with
    | nil =>
      obtain ⟨rfl, rfl⟩ := List.cons.inj heq
      exact .inl ⟨next_eq_backslash_iff.2 ⟨hread, rfl⟩, rest, rfl⟩
    | cons d' front =>
      obtain ⟨rfl, rfl⟩ := List.cons.inj heq
      rw [Text.getLast?_cons_or] at hsilent
      exact .inr ⟨front, rest, rfl, hread, hsilent⟩
  · rintro (⟨hback, rest, rfl⟩ | ⟨front, rest, rfl, hread, hsilent⟩)
    · obtain ⟨hr, rfl⟩ := next_eq_backslash_iff.1 hback
      exact ⟨[], rest, rfl, hr, hnone⟩
    · rw [← Text.getLast?_cons_or d front before] at hsilent
      exact ⟨d :: front, rest, rfl, hread, hsilent⟩

/-- What a change takes away holds no control symbol about which the rule says nothing. -/
theorem Change.standsUntouched_append {r : Reached} (h : Change before old put) (hsome : rule before (old ++ rest) ≠ none) :
    StandsUntouched rule before r c (old ++ rest) ↔ StandsUntouched rule old.getLast? (r.read old) c rest := by
  have hlast : ∀ front : Text, (old ++ front).getLast?.or before = front.getLast?.or old.getLast? := by
    intro front
    rw [List.getLast?_append, Option.or_assoc, List.getLast?_eq_some_getLast h.ne_nil]
    rfl
  constructor
  · rintro ⟨front, behind, heq, hread, hsilent⟩
    rcases List.append_eq_append_iff.1 heq with ⟨front', rfl, rfl⟩ | ⟨part, rfl, hpart⟩
    · rw [hlast] at hsilent
      exact ⟨front', behind, rfl, by rwa [read_append] at hread, hsilent⟩
    -- The backslash of the symbol is not the first of what is taken away, and no other is in it.
    · cases front with
      | nil => exact absurd (heq ▸ hsilent) hsome
      | cons d front =>
        cases part with
        | nil =>
          refine ⟨[], behind, hpart.symm, by simpa using hread, ?_⟩
          rw [← hlast []]
          simpa using hsilent
        | cons e part =>
          obtain ⟨rfl, -⟩ := List.cons.inj hpart
          exact absurd (List.mem_append_right front List.mem_cons_self) h.backslash_not_mem_tail
  · rintro ⟨front, behind, rfl, hread, hsilent⟩
    rw [← hlast] at hsilent
    exact ⟨old ++ front, behind, by simp, by rwa [read_append], hsilent⟩

/-- A character that is left untouched is not put in the place of a change. -/
theorem Change.not_mem_put (h : Change before old put) (hc : Untouched rule c) : c ∉ put := by
  rcases h.put_cases with ⟨rfl, -⟩ | rfl | ⟨rfl, -⟩
  · exact List.not_mem_nil
  · exact fun hmem => hc.ne_space (List.mem_singleton.1 hmem)
  · intro hmem
    rcases List.mem_cons.1 hmem with heq | hmem
    · exact hc.ne_backslash heq
    · have hletters : ∀ c ∈ ("frac" : Text), c.isAsciiLetter = true := by decide
      exact absurd (hletters c hmem) (by simp [hc.symbol])

/-- The control symbols of what the rule makes of a source are those about which it says nothing. -/
theorem mem_symbols_of_rewriting (hrule : Changes rule) (hstep : KeepsStep rule) (hc : Untouched rule c)
    (h : Text.Rewriting rule out before s t places) :
    ∀ {r}, (r = backslash → before = some '\\') → InStep r (token.read out) →
      (c ∈ (token.read out).symbols t ↔ (r = backslash ∧ ∃ rest, s = c :: rest) ∨ StandsUntouched rule before r c s) := by
  induction h with
  | done =>
    intro r _ _
    simp [StandsUntouched]
  | @keep out before d s t places hnone _ ih =>
    intro r _ hr
    have hnext : InStep (r.next d) (token.read (out ++ [d])) := by
      rw [read_append]
      exact hr.next d
    have hrest := ih (fun hback => by rw [(next_eq_backslash_iff.1 hback).2]; rfl) hnext
    rw [read_append, read_cons, read_nil] at hrest
    rw [symbols_cons, List.mem_append, mem_symbol_iff hc.symbol, hrest, standsUntouched_cons hnone]
    refine or_congr (and_congr hr.symm ?_) .rfl
    simp
  | @apply out before old rest put t places hold happly _ ih =>
    intro r hbefore hr
    have hchange := hrule hold happly
    have hread : InStep (r.read old) (token.read (out ++ put)) := by
      rw [read_append]
      exact hchange.inStep (hstep happly hold hbefore hr)
    have hrest := ih (fun hback => absurd hback (hchange.read_ne r)) hread
    have hput : c ∉ (token.read out).symbols put := fun hmem => hchange.not_mem_put hc (symbols_subset _ _ hmem)
    have hpoint : ¬ ∃ rest', old ++ rest = c :: rest' := by
      rintro ⟨rest', heq⟩
      rw [heq, hc.point] at happly
      cases happly
    rw [read_append] at hrest
    rw [symbols_append, List.mem_append, or_iff_right hput, hrest, or_iff_right fun hback => hchange.read_ne r hback.1,
      or_iff_right fun hback => hpoint hback.2, hchange.standsUntouched_append (by simp [happly])]

theorem mem_controlSymbols_substitute (hrule : Changes rule) (hadvances : rule.Advances) (hstep : KeepsStep rule)
    (hc : Untouched rule c) (s : Text) : c ∈ controlSymbols (s.substitute rule) ↔ StandsUntouched rule none token c s := by
  have h := mem_symbols_of_rewriting hrule hstep hc (Text.rewriting_substitute hadvances s) (r := token) (by simp) .rfl
  rw [controlSymbols_eq]
  simpa using h

/-- A control symbol stands behind whole tokens, which is what a rule that is never applied leaves. -/
theorem mem_controlSymbols_iff (hsymbol : c.isAsciiLetter = false) (hslash : c ≠ '\\') (hspace : c ≠ ' ') (s : Text) :
    c ∈ controlSymbols s ↔ ∃ front rest, s = front ++ ('\\' : CodePoint) :: c :: rest ∧ token.read front ≠ backslash := by
  have hsame : s.substitute (fun _ _ => none) = s := Text.substituteFrom_eq_self (fun _ _ => rfl) none
  have h : c ∈ controlSymbols (s.substitute fun _ _ => none) ↔ StandsUntouched (fun _ _ => none) none token c s :=
    mem_controlSymbols_substitute (fun _ h => by cases h) (fun _ _ _ _ _ h => by cases h) (fun h => by cases h)
      ⟨fun _ _ => rfl, hsymbol, hslash, hspace⟩ s
  rw [hsame] at h
  simpa [StandsUntouched] using h

/-- A rule keeps the control symbols about which it never says anything. -/
theorem mem_controlSymbols_substitute_of_silent (rule : Text.Rule) (hrule : Changes rule) (hadvances : rule.Advances)
    (hstep : KeepsStep rule) (hc : Untouched rule c) (hsilent : ∀ before rest, rule before (('\\' : CodePoint) :: c :: rest) = none) :
    c ∈ controlSymbols (s.substitute rule) ↔ c ∈ controlSymbols s := by
  rw [mem_controlSymbols_substitute hrule hadvances hstep hc, mem_controlSymbols_iff hc.symbol hc.ne_backslash hc.ne_space]
  simp [StandsUntouched, hsilent]

/-! ### The steps and the control symbols -/

/-- The control symbols that are taken away. -/
def removedSymbols : Text := ",;:!"

theorem keepsStep_of_sparesRows (hrule : Changes rule) (h : SparesRows rule fun _ => True) : KeepsStep rule := by
  intro before out old rest put r happly hold hbefore hstep hput
  exact h happly trivial hbefore hstep ((hrule hold happly).mem_of_put_eq_nil hput) (by simp [hput])

theorem keepsStep_spacingRule : KeepsStep spacingRule :=
  fun happly _ _ _ hput => absurd ((exists_of_spacingRule happly).1.symm.trans hput) (by decide)

theorem skipWord?_of_ne (hc : c ≠ '\\') (words : List Text) (s : Text) : skipWord? words (c :: s) = none := by
  have hslash : Text.dropPrefix? (c :: s) "\\" = none := if_neg hc
  rw [skipWord?, controlWord?, hslash]

theorem skipWord?_symbol (hc : c.isAsciiLetter = false) (words : List Text) (s : Text) :
    skipWord? words (('\\' : CodePoint) :: c :: s) = none := by
  have hslash : Text.dropPrefix? (('\\' : CodePoint) :: c :: s) "\\" = some (c :: s) := Text.dropPrefix?_append [('\\' : CodePoint)] _
  rw [skipWord?, controlWord?, hslash]
  simp [Text.span, hc]

theorem skipSymbol?_of_ne (hc : c ≠ '\\') (symbols : Text) (before : Option CodePoint) (s : Text) :
    skipSymbol? symbols before (c :: s) = none := by
  have hslash : Text.dropPrefix? (c :: s) "\\" = none := if_neg hc
  simp [skipSymbol?, hslash]

/-- A control symbol that is looked for is found, unless a backslash stands in front of it. -/
theorem skipSymbol?_eq_none_iff (symbols : Text) (before : Option CodePoint) (s : Text) :
    skipSymbol? symbols before (('\\' : CodePoint) :: c :: s) = none ↔ before = some '\\' ∨ c ∉ symbols := by
  have hslash : Text.dropPrefix? (('\\' : CodePoint) :: c :: s) "\\" = some (c :: s) := Text.dropPrefix?_append [('\\' : CodePoint)] _
  rw [skipSymbol?, hslash]
  by_cases hbefore : before = some '\\' <;> by_cases hc : c ∈ symbols <;> simp [hbefore, hc]

theorem skipWideGap?_of_ne (hspace : c ≠ ' ') (htab : c ≠ '\t') (s : Text) : skipWideGap? (c :: s) = none := by
  have hgap : (c :: s).takeWhile (fun c : CodePoint => c == ' ' || c == '\t') = [] := List.takeWhile_cons_of_neg (by simp [hspace, htab])
  simp [skipWideGap?, Text.span, hgap]

theorem shape_of_removedSymbols : ∀ c ∈ removedSymbols,
    c.isAsciiLetter = false ∧ c ≠ '\\' ∧ c ≠ ' ' ∧ c ≠ '\t' ∧ c.isSpace = false := by decide

theorem untouched_of_mem (hc : c ∈ removedSymbols) (hpoint : ∀ before rest, rule before (c :: rest) = none) : Untouched rule c :=
  have hshape := shape_of_removedSymbols c hc
  ⟨hpoint, hshape.1, hshape.2.1, hshape.2.2.1⟩

theorem untouched_spacingRule (hc : c ∈ removedSymbols) : Untouched spacingRule c := by
  have hslash := (shape_of_removedSymbols c hc).2.1
  exact untouched_of_mem hc fun before rest => by
    rw [spacingRule, skipWord?_of_ne hslash, skipSymbol?_of_ne hslash]
    rfl

theorem untouched_negativeSpaceDeletion (hc : c ∈ removedSymbols) : Untouched negativeSpaceDeletion c :=
  untouched_of_mem hc fun before rest => by
    rw [negativeSpaceDeletion, skipSymbol?_of_ne (shape_of_removedSymbols c hc).2.1]
    rfl

/-- A control symbol directly behind a row separator: a whole token that ends with a backslash stands in front of it. -/
def BehindRow (c : CodePoint) (s : Text) : Prop :=
  ∃ front rest, s = front ++ ('\\' : CodePoint) :: c :: rest ∧ token.read front ≠ backslash ∧ front.getLast? = some '\\'

instance (c : CodePoint) (s : Text) : Decidable (BehindRow c s) :=
  decidable_of_iff (∃ i ≤ s.length, token.read (s.take i) ≠ backslash ∧ (s.take i).getLast? = some '\\' ∧
    [('\\' : CodePoint), c] <+: s.drop i) <| by
    constructor
    · rintro ⟨i, -, hread, hlast, rest, hrest⟩
      exact ⟨s.take i, rest, by simpa using (List.take_append_drop i s).symm.trans (congrArg (s.take i ++ ·) hrest.symm), hread, hlast⟩
    · rintro ⟨front, rest, rfl, hread, hlast⟩
      exact ⟨front.length, by simp, by simpa using hread, by simpa using hlast, rest, by simp⟩

/-- A narrow space is not found where it stands directly behind a row separator. -/
theorem mem_controlSymbols_plainSpacing (hc : c ∈ (",;:" : Text)) (s : Text) :
    c ∈ controlSymbols (plainSpacing s) ↔ BehindRow c s := by
  have hremoved : ∀ c ∈ (",;:" : Text), c ∈ removedSymbols := by decide
  have hsymbol := (shape_of_removedSymbols c (hremoved c hc)).1
  have hsilent : ∀ before rest, spacingRule before (('\\' : CodePoint) :: c :: rest) = none ↔ before = some '\\' := by
    intro before rest
    rw [spacingRule, Option.map_eq_none_iff, skipWord?_symbol hsymbol, Option.none_or, skipSymbol?_eq_none_iff, or_iff_left (not_not.2 hc)]
  rw [plainSpacing_eq, mem_controlSymbols_substitute changes_spacingRule advances_spacingRule keepsStep_spacingRule
    (untouched_spacingRule (hremoved c hc))]
  simp only [StandsUntouched, BehindRow, hsilent, Option.or_none]

/-- A negative space is not found where it stands directly behind a row separator. -/
theorem mem_controlSymbols_deleteNegativeSpace (s : Text) :
    ('!' : CodePoint) ∈ controlSymbols (deleteNegativeSpace s) ↔ BehindRow '!' s := by
  have hsilent : ∀ before rest, negativeSpaceDeletion before (('\\' : CodePoint) :: '!' :: rest) = none ↔ before = some '\\' := by
    intro before rest
    rw [negativeSpaceDeletion, Option.map_eq_none_iff, skipSymbol?_eq_none_iff, or_iff_left (not_not.2 (by decide))]
  rw [deleteNegativeSpace_eq, mem_controlSymbols_substitute changes_negativeSpaceDeletion advances_negativeSpaceDeletion
    (keepsStep_of_sparesRows changes_negativeSpaceDeletion sparesRows_negativeSpaceDeletion)
    (untouched_negativeSpaceDeletion (by decide))]
  simp only [StandsUntouched, BehindRow, hsilent, Option.or_none]

/-- Narrow spaces are not looked for with negative ones. -/
theorem mem_controlSymbols_deleteNegativeSpace_of_ne (hc : c ∈ removedSymbols) (hne : c ≠ '!') (s : Text) :
    c ∈ controlSymbols (deleteNegativeSpace s) ↔ c ∈ controlSymbols s := by
  refine mem_controlSymbols_substitute_of_silent negativeSpaceDeletion changes_negativeSpaceDeletion advances_negativeSpaceDeletion
    (keepsStep_of_sparesRows changes_negativeSpaceDeletion sparesRows_negativeSpaceDeletion)
    (untouched_negativeSpaceDeletion hc) fun before rest => ?_
  rw [negativeSpaceDeletion, Option.map_eq_none_iff, skipSymbol?_eq_none_iff]
  exact .inr fun hmem => hne (List.mem_singleton.1 hmem)

/-- The last steps look for no control symbols. -/
theorem mem_controlSymbols_normalize (hc : c ∈ removedSymbols) (s : Text) :
    c ∈ controlSymbols (normalize s) ↔ c ∈ controlSymbols (withoutNegativeSpaces s) := by
  obtain ⟨hsymbol, hslash, hspace, htab, hblank⟩ := shape_of_removedSymbols c hc
  have hfractions : ∀ before rest, fractionRule before (c :: rest) = none ∧ fractionRule before (('\\' : CodePoint) :: c :: rest) = none := by
    intro before rest
    simp [fractionRule, Text.replacing, skipWord?_of_ne hslash, skipWord?_symbol hsymbol]
  have hgaps : ∀ before rest, gapRule before (c :: rest) = none ∧ gapRule before (('\\' : CodePoint) :: c :: rest) = none := by
    intro before rest
    have hcommand : skipWideGap? (('\\' : CodePoint) :: c :: rest) = none := skipWideGap?_of_ne (by decide) (by decide) _
    simp [gapRule, Text.replacing, skipWideGap?_of_ne hspace htab, hcommand]
  rw [normalize_eq, mem_controlSymbols_trim hblank]
  calc c ∈ controlSymbols ((withPlainFractions s).substitute gapRule)
      ↔ c ∈ controlSymbols (withPlainFractions s) :=
        mem_controlSymbols_substitute_of_silent gapRule changes_gapRule advances_gapRule
          (keepsStep_of_sparesRows changes_gapRule sparesRows_gapRule) (untouched_of_mem hc fun _ _ => (hgaps _ _).1)
          fun _ _ => (hgaps _ _).2
    _ ↔ c ∈ controlSymbols (withoutNegativeSpaces s) :=
        mem_controlSymbols_substitute_of_silent fractionRule changes_fractionRule advances_fractionRule
          (keepsStep_of_sparesRows changes_fractionRule sparesRows_fractionRule) (untouched_of_mem hc fun _ _ => (hfractions _ _).1)
          fun _ _ => (hfractions _ _).2

/-- A narrow or negative space is left in the normal form exactly where it stands directly behind a row separator. -/
theorem not_mem_controlSymbols_normalize_iff (s : Text) : (∀ c ∈ controlSymbols (normalize s), c ∉ removedSymbols) ↔
    (∀ c ∈ (",;:" : Text), ¬ BehindRow c (withoutStyles s)) ∧ ¬ BehindRow '!' (withPlainSpaces s) := by
  have hnarrow : ∀ c ∈ (",;:" : Text), c ∈ removedSymbols ∧ c ≠ '!' := by decide
  have hsplit : ∀ c ∈ removedSymbols, c ∈ (",;:" : Text) ∨ c = '!' := by decide
  have hspaces : ∀ c ∈ (",;:" : Text), (c ∈ controlSymbols (normalize s) ↔ BehindRow c (withoutStyles s)) := by
    intro c hc
    obtain ⟨hremoved, hne⟩ := hnarrow c hc
    rw [mem_controlSymbols_normalize hremoved, withoutNegativeSpaces, mem_controlSymbols_deleteNegativeSpace_of_ne hremoved hne,
      withPlainSpaces, mem_controlSymbols_plainSpacing hc]
  have hnegative : ('!' : CodePoint) ∈ controlSymbols (normalize s) ↔ BehindRow '!' (withPlainSpaces s) := by
    rw [mem_controlSymbols_normalize (by decide), withoutNegativeSpaces, mem_controlSymbols_deleteNegativeSpace]
  constructor
  · intro h
    exact ⟨fun c hc hbehind => h c ((hspaces c hc).2 hbehind) (hnarrow c hc).1,
      fun hbehind => h _ (hnegative.2 hbehind) (by decide)⟩
  · rintro ⟨hnone, hnone'⟩ c hc hremoved
    rcases hsplit c hremoved with hmem | rfl
    · exact hnone c hmem ((hspaces c hmem).1 hc)
    · exact hnone' (hnegative.1 hc)

/--
The normal form holds none of the words that are taken away, unless a deletion puts one together, and holds a narrow or
negative space exactly where one stands directly behind a row separator.
-/
theorem removed_normalize (h : Unformed s) :
    (∀ w ∈ controlWords (normalize s), w ∉ removedWords) ∧
      ((∀ c ∈ controlSymbols (normalize s), c ∉ removedSymbols) ↔
        (∀ c ∈ (",;:" : Text), ¬ BehindRow c (withoutStyles s)) ∧ ¬ BehindRow '!' (withPlainSpaces s)) :=
  ⟨not_mem_controlWords_normalize h, not_mem_controlSymbols_normalize_iff s⟩

/-- Commands of all kinds that are taken away, some of them behind row separators. -/
def commandsBehindRows : Text := "\\displaystyle\\Bigl(\\alpha\\,\\dfrac12\\quad x\\!y\\\\\\big|z\\;\\tfrac ab\\\\;\\bigr)"

theorem removed_commandsBehindRows : Unformed commandsBehindRows ∧
    (∀ w ∈ controlWords (normalize commandsBehindRows), w ∉ removedWords) ∧
      ∀ c ∈ controlSymbols (normalize commandsBehindRows), c ∉ removedSymbols := by
  have h : Unformed commandsBehindRows := ⟨by decide +kernel, by decide +kernel, by decide +kernel⟩
  obtain ⟨hwords, hsymbols⟩ := removed_normalize h
  exact ⟨h, hwords, hsymbols.2 (by decide +kernel)⟩

/-- A narrow space behind a row separator. -/
def narrowBehindRow : Text := "a\\\\\\,b"

/-- It is left in the normal form. -/
theorem normalize_keeps_narrowBehindRow : ¬ ∀ s : Text,
    (∀ w ∈ controlWords (normalize s), w ∉ removedWords) ∧ ∀ c ∈ controlSymbols (normalize s), c ∉ removedSymbols := by
  intro hall
  have hleft : (',' : CodePoint) ∈ controlSymbols (normalize narrowBehindRow) := by
    rw [controlSymbols_eq]
    decide +kernel
  exact (hall narrowBehindRow).2 _ hleft (by decide)

end EquationExport.Latex
