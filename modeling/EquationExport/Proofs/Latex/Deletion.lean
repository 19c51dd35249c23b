import EquationExport.Latex.Normal
import EquationExport.Proofs.Latex.Alongside

/-!
# Commands that are deleted or replaced

The steps to the normal form of a source look for commands without looking at what stands in front of them. A step
that puts something in the place of a command fuses no tokens. A step that deletes a command fuses none either,
unless what stands in front of the command joins with what stands behind it.
-/

namespace EquationExport.Latex

open Reached

variable {A : Allowed} {s old rest put : Text} {words : List Text}

/-! ### Commands at the front -/

/-- A control word at the front, with its letters and what follows. -/
theorem exists_of_skipWord? (h : skipWord? words s = some rest) :
    ∃ word ∈ words, s = ('\\' : CodePoint) :: (word ++ rest) ∧ word ≠ [] ∧ (∀ c ∈ word, c.isAsciiLetter = true) ∧ StartsToken rest := by
  unfold skipWord? controlWord? at h
  cases hslash : s.dropPrefix? "\\" with
  | none => simp [hslash] at h
  | some behind =>
    simp only [hslash, Text.span] at h
    by_cases hempty : (behind.takeWhile (·.isAsciiLetter)).isEmpty = true
    · simp [hempty] at h
    · simp only [hempty, Bool.false_eq_true, if_false] at h
      by_cases hmem : behind.takeWhile (·.isAsciiLetter) ∈ words
      · rw [if_pos hmem] at h
        obtain rfl := Option.some.inj h
        refine ⟨_, hmem, ?_, by simpa using hempty, fun c hc => List.mem_takeWhile_imp hc, fun c hc => ?_⟩
        · rw [List.takeWhile_append_dropWhile]
          exact Text.eq_append_of_dropPrefix? hslash
        · have hhead := List.head?_dropWhile_not (·.isAsciiLetter) behind
          rw [Option.mem_def.1 hc] at hhead
          simpa using hhead
      · rw [if_neg hmem] at h
        cases h

/-- A control symbol at the front, behind something else than a backslash. -/
theorem exists_of_skipSymbol? {symbols : Text} {before : Option CodePoint} (h : skipSymbol? symbols before s = some rest) :
    before ≠ some '\\' ∧ ∃ c ∈ symbols, s = ('\\' : CodePoint) :: c :: rest := by
  unfold skipSymbol? at h
  by_cases hbefore : before = some '\\'
  · rw [if_pos hbefore] at h
    cases h
  · rw [if_neg hbefore] at h
    refine ⟨hbefore, ?_⟩
    split at h
    · next c behind hslash =>
      by_cases hmem : c ∈ symbols
      · rw [if_pos hmem] at h
        obtain rfl := Option.some.inj h
        exact ⟨c, hmem, Text.eq_append_of_dropPrefix? hslash⟩
      · rw [if_neg hmem] at h
        cases h
    · cases h

/-! ### Readers at a command -/

variable {r r' : Reached}

/-- Neither reader stands behind a lone backslash, or both do. -/
theorem Alongside.cases_backslash (h : Alongside A s r r') :
    (r = backslash ∧ r' = backslash) ∨ (r ≠ backslash ∧ r' ≠ backslash) := by
  cases h with
  | same =>
    by_cases hr : r = backslash
    · exact .inl ⟨hr, hr⟩
    · exact .inr ⟨hr, hr⟩
  | apart hr hr' _ _ => exact .inr ⟨hr, hr'⟩

theorem startsToken_backslash (s : Text) : StartsToken (('\\' : CodePoint) :: s) := by
  intro c hc
  obtain rfl := Option.some.inj hc
  decide

/-- Letters that a lone backslash does not start a token with are characters on their own. -/
theorem read_backslash_word {word : Text} (h : ∀ c ∈ word, c.isAsciiLetter = true) :
    backslash.read (('\\' : CodePoint) :: word) = token ∧ backslash.endedIn (('\\' : CodePoint) :: word) = [] := by
  rw [(read_backslash_backslash word).1, (read_backslash_backslash word).2]
  refine read_token_of_not_mem fun hmem => ?_
  exact absurd (h _ hmem) (by decide)

/-- A control word that is read whole. -/
theorem read_word {word : Text} (hr : r ≠ backslash) (hword : word ≠ []) (h : ∀ c ∈ word, c.isAsciiLetter = true) :
    r.read (('\\' : CodePoint) :: word) = letters word ∧ r.endedIn (('\\' : CodePoint) :: word) = r.pending := by
  obtain ⟨hread, hended⟩ := read_backslash_cons hr word
  obtain ⟨hread', hended'⟩ := read_backslash_of_letters hword h
  exact ⟨hread.trans hread', by rw [hended, hended', List.append_nil]⟩

/-- Behind quiet characters, if there are any, a token has ended. -/
theorem read_quiet (h : ∀ c ∈ s, isQuiet c = true) (r : Reached) : r.read s = token ∨ (s = [] ∧ r.read s = r) := by
  rcases List.eq_nil_or_concat s with rfl | ⟨front, c, rfl⟩
  · exact .inr ⟨rfl, rfl⟩
  · rw [List.concat_eq_append] at h ⊢
    exact .inl (read_concat_of_isQuiet (h c (by simp)) r front)

/-- The second reader stays where it is, behind a token or a word that the next character ends. -/
theorem Alongside.stay {q : Reached} (hq : q = token ∨ (q ≠ backslash ∧ StartsToken rest))
    (hr' : r' ≠ backslash) (hpending : ∀ w ∈ r'.pending, A w) (hstart : ∀ w, r' = letters w → StartsToken rest) :
    Alongside A rest q r' := by
  cases r' with
  | backslash => exact absurd rfl hr'
  | token =>
    rcases hq with rfl | ⟨hq, hstart⟩
    · exact .same _
    · exact .apart hq (by simp) hpending hstart
  | letters w =>
    refine .apart ?_ (by simp) hpending (hstart w rfl)
    rcases hq with rfl | ⟨hq, -⟩
    · simp
    · exact hq

theorem not_joins {out : Text} (h : ¬ Joins out rest) :
    token.read out ≠ backslash ∧ ∀ w, token.read out = letters w → StartsToken rest := by
  unfold Joins at h
  constructor
  · intro hback
    simp [hback] at h
  · intro w hw
    simpa [hw] using h

/-! ### Deletions -/

/-- The rule by which commands are deleted together with the white space after them. -/
def wordDeletion (words : List Text) : Text.Rule := Text.deleting fun r => (skipWord? words r).map (·.trimStart)

/-- The rule by which negative spaces are deleted. -/
def negativeSpaceDeletion : Text.Rule := fun before r => (skipSymbol? "!" before r).map ([], ·)

theorem deleteNegativeSpace_eq (s : Text) : deleteNegativeSpace s = s.substitute negativeSpaceDeletion := rfl

theorem exists_of_wordDeletion {before : Option CodePoint} (h : wordDeletion words before s = some (put, rest)) :
    put = [] ∧ ∃ word ∈ words, ∃ spaces, s = ('\\' : CodePoint) :: (word ++ (spaces ++ rest)) ∧ word ≠ [] ∧
      (∀ c ∈ word, c.isAsciiLetter = true) ∧ (∀ c ∈ spaces, isQuiet c = true) ∧ StartsToken (spaces ++ rest) := by
  obtain ⟨behind, hbehind, heq⟩ := Option.map_eq_some_iff.1 h
  obtain ⟨after, hafter, rfl⟩ := Option.map_eq_some_iff.1 hbehind
  obtain ⟨rfl, rfl⟩ := Prod.mk.inj heq
  obtain ⟨word, hword, rfl, hne, hletters, hstart⟩ := exists_of_skipWord? hafter
  refine ⟨rfl, word, hword, after.takeWhile (·.isSpace), ?_, hne, hletters,
    fun c hc => isQuiet_of_isSpace (List.mem_takeWhile_imp hc), ?_⟩
  · rw [Text.trimStart, List.takeWhile_append_dropWhile]
  · rwa [Text.trimStart, List.takeWhile_append_dropWhile]

theorem advances_wordDeletion (words : List Text) : (wordDeletion words).Advances := by
  refine Text.advances_of_exists fun before s put rest h => ?_
  obtain ⟨-, word, -, spaces, rfl, -⟩ := exists_of_wordDeletion h
  exact ⟨('\\' : CodePoint) :: (word ++ spaces), by simp, by simp⟩

theorem advances_negativeSpaceDeletion : negativeSpaceDeletion.Advances := by
  refine Text.advances_of_exists fun before s put rest h => ?_
  obtain ⟨behind, hbehind, heq⟩ := Option.map_eq_some_iff.1 h
  obtain ⟨-, rfl⟩ := Prod.mk.inj heq
  obtain ⟨-, c, -, rfl⟩ := exists_of_skipSymbol? hbehind
  exact ⟨[('\\' : CodePoint), c], by simp, rfl⟩

/-- A deletion that joins nothing fits. -/
theorem fits_wordDeletion (words : List Text) : Fits A (wordDeletion words) fun out rest => ¬ Joins out rest := by
  intro before out old rest put r happly _ hclean _ hwords halong
  obtain ⟨rfl, word, -, spaces, hs, hne, hletters, hspaces, hstart⟩ := exists_of_wordDeletion happly
  obtain rfl : old = ('\\' : CodePoint) :: (word ++ spaces) := (List.append_left_inj rest).1 (by simpa using hs)
  obtain ⟨hr', hletter⟩ := not_joins hclean
  have hr : r ≠ backslash := by
    rcases halong.cases_backslash with ⟨-, hback⟩ | ⟨hr, -⟩
    · exact absurd hback hr'
    · exact hr
  have hread : r.read (('\\' : CodePoint) :: (word ++ spaces)) = (letters word).read spaces := by
    rw [← List.cons_append, read_append, (read_word hr hne hletters).1]
  refine ⟨by simp, ?_⟩
  rw [read_nil]
  refine Alongside.stay ?_ hr' (halong.pending hwords (startsToken_backslash _)) hletter
  rw [hread]
  rcases read_quiet hspaces (letters word) with hquiet | ⟨rfl, -⟩
  · exact .inl hquiet
  · exact .inr ⟨by simp, hstart⟩

theorem fits_negativeSpaceDeletion : Fits A negativeSpaceDeletion fun out rest => ¬ Joins out rest := by
  intro before out old rest put r happly _ hclean hbefore hwords halong
  obtain ⟨behind, hbehind, heq⟩ := Option.map_eq_some_iff.1 happly
  obtain ⟨rfl, rfl⟩ := Prod.mk.inj heq
  obtain ⟨hnot, c, hc, hs⟩ := exists_of_skipSymbol? hbehind
  obtain rfl : old = [('\\' : CodePoint), c] := (List.append_left_inj behind).1 (by simpa using hs)
  obtain rfl : c = '!' := by simpa [Text.ofString] using hc
  obtain ⟨hr', hletter⟩ := not_joins hclean
  have hr : r ≠ backslash := fun hback => hnot (hbefore hback)
  have hread : r.read [('\\' : CodePoint), '!'] = token := by
    rw [(read_backslash_cons hr _).1]
    decide
  refine ⟨by simp, ?_⟩
  rw [read_nil]
  exact Alongside.stay (.inl hread) hr' (halong.pending hwords (startsToken_backslash _)) hletter

/-! ### Replacements -/

/-- Spacing commands as plain spaces. -/
def spacingRule : Text.Rule :=
  fun before r => ((skipWord? spaceWords r).or (skipSymbol? ",;:" before r)).map ((" " : Text), ·)

theorem plainSpacing_eq (s : Text) : plainSpacing s = s.substitute spacingRule := rfl

/-- Fractions of a fixed style as plain ones. -/
def fractionRule : Text.Rule := Text.replacing (skipWord? fractionWords) "\\frac"

/-- Wide gaps as single spaces. -/
def gapRule : Text.Rule := Text.replacing skipWideGap? " "

theorem exists_of_spacingRule {before : Option CodePoint} (h : spacingRule before s = some (put, rest)) :
    put = " " ∧ ((∃ word, s = ('\\' : CodePoint) :: (word ++ rest) ∧ word ≠ [] ∧
        (∀ c ∈ word, c.isAsciiLetter = true) ∧ StartsToken rest) ∨
      (before ≠ some '\\' ∧ ∃ c ∈ (",;:" : Text), s = ('\\' : CodePoint) :: c :: rest)) := by
  obtain ⟨behind, hbehind, heq⟩ := Option.map_eq_some_iff.1 h
  obtain ⟨rfl, rfl⟩ := Prod.mk.inj heq
  refine ⟨rfl, ?_⟩
  rcases Option.or_eq_some_iff.1 hbehind with hword | ⟨-, hsymbol⟩
  · obtain ⟨word, -, hs, hne, hletters, hstart⟩ := exists_of_skipWord? hword
    exact .inl ⟨word, hs, hne, hletters, hstart⟩
  · exact .inr (exists_of_skipSymbol? hsymbol)

theorem advances_spacingRule : spacingRule.Advances := by
  refine Text.advances_of_exists fun before s put rest h => ?_
  obtain ⟨-, ⟨word, rfl, -⟩ | ⟨-, c, -, rfl⟩⟩ := exists_of_spacingRule h
  · exact ⟨('\\' : CodePoint) :: word, by simp, rfl⟩
  · exact ⟨[('\\' : CodePoint), c], by simp, rfl⟩

/-- A space ends the token in front of it. -/
theorem read_space (r : Reached) : r.read " " = token ∧ r.endedIn " " = r.pending := by
  have hletter : (' ' : CodePoint).isAsciiLetter = false := by decide
  refine ⟨read_concat_of_isQuiet (s := []) (by decide) r, ?_⟩
  simp [Text.ofString, ended, hletter]

theorem fits_spacingRule : Fits A spacingRule fun _ _ => True := by
  intro before out old rest put r happly _ _ hbefore hwords halong
  obtain ⟨rfl, hcases⟩ := exists_of_spacingRule happly
  obtain ⟨hread, hended⟩ := read_space (token.read out)
  rw [hread, hended]
  rcases hcases with ⟨word, hs, hne, hletters, hstart⟩ | ⟨hnot, c, hc, hs⟩
  · obtain rfl : old = ('\\' : CodePoint) :: word := (List.append_left_inj rest).1 (by simpa using hs)
    refine ⟨halong.pending hwords (startsToken_backslash _), ?_⟩
    by_cases hr : r = backslash
    · rw [hr, (read_backslash_word hletters).1]
      exact .same _
    · rw [(read_word hr hne hletters).1]
      exact .apart (by simp) (by simp) (by simp [Reached.pending]) hstart
  · obtain rfl : old = [('\\' : CodePoint), c] := (List.append_left_inj rest).1 (by simpa using hs)
    refine ⟨halong.pending hwords (startsToken_backslash _), ?_⟩
    have hr : r ≠ backslash := fun hback => hnot (hbefore hback)
    have hsymbol : ∀ c ∈ (",;:" : Text), backslash.read [c] = token := by decide
    rw [(read_backslash_cons hr _).1, hsymbol c hc]
    exact .same _

theorem advances_fractionRule : fractionRule.Advances := by
  refine Text.advances_of_exists fun before s put rest h => ?_
  obtain ⟨behind, hbehind, heq⟩ := Option.map_eq_some_iff.1 h
  obtain ⟨-, rfl⟩ := Prod.mk.inj heq
  obtain ⟨word, -, rfl, -⟩ := exists_of_skipWord? hbehind
  exact ⟨('\\' : CodePoint) :: word, by simp, rfl⟩

theorem fits_fractionRule (hfrac : ∀ word ∈ fractionWords, A word → A "frac") :
    Fits A fractionRule fun _ _ => True := by
  intro before out old rest put r happly _ _ _ hwords halong
  obtain ⟨behind, hbehind, heq⟩ := Option.map_eq_some_iff.1 happly
  obtain ⟨rfl, rfl⟩ := Prod.mk.inj heq
  obtain ⟨word, hmem, hs, hne, hletters, hstart⟩ := exists_of_skipWord? hbehind
  obtain rfl : old = ('\\' : CodePoint) :: word := (List.append_left_inj behind).1 (by simpa using hs)
  have hput : ("\\frac" : Text) = ('\\' : CodePoint) :: "frac" := rfl
  have hfraction : ∀ c ∈ ("frac" : Text), c.isAsciiLetter = true := by decide
  rw [hput]
  rcases halong.cases_backslash with ⟨hr, hr'⟩ | ⟨hr, hr'⟩
  · rw [hr, hr', (read_backslash_word hletters).1, (read_backslash_word hfraction).1,
      (read_backslash_word hfraction).2]
    exact ⟨by simp, .same _⟩
  · rw [(read_word hr hne hletters).1, (read_word hr' (by decide) hfraction).1, (read_word hr' (by decide) hfraction).2]
    refine ⟨halong.pending hwords (startsToken_backslash _), .apart (by simp) (by simp) ?_ hstart⟩
    have hword : A word := by
      refine hwords word ?_
      rw [words_append, (read_word hr hne hletters).1]
      exact List.mem_append_right _ (pending_subset_words hstart (by simp [Reached.pending]))
    simpa [Reached.pending] using hfrac word hmem hword

/-- The blank characters of a gap and what follows. -/
theorem exists_of_skipWideGap? (h : skipWideGap? s = some rest) :
    ∃ gap, s = gap ++ rest ∧ gap.length ≥ 2 ∧ ∀ c ∈ gap, isQuiet c = true := by
  unfold skipWideGap? at h
  dsimp only [Text.span] at h
  split at h
  · next hlength =>
    obtain rfl := Option.some.inj h
    refine ⟨_, (List.takeWhile_append_dropWhile).symm, hlength, fun c hc => ?_⟩
    have hblank := List.mem_takeWhile_imp hc
    simp only [Bool.or_eq_true, beq_iff_eq] at hblank
    rcases hblank with rfl | rfl <;> decide
  · cases h

theorem advances_gapRule : gapRule.Advances := by
  refine Text.advances_of_exists fun before s put rest h => ?_
  obtain ⟨behind, hbehind, heq⟩ := Option.map_eq_some_iff.1 h
  obtain ⟨-, rfl⟩ := Prod.mk.inj heq
  obtain ⟨gap, rfl, hlength, -⟩ := exists_of_skipWideGap? hbehind
  exact ⟨gap, List.ne_nil_of_length_pos (by omega), rfl⟩

theorem fits_gapRule : Fits A gapRule fun _ _ => True := by
  intro before out old rest put r happly hold _ _ hwords halong
  obtain ⟨behind, hbehind, heq⟩ := Option.map_eq_some_iff.1 happly
  obtain ⟨rfl, rfl⟩ := Prod.mk.inj heq
  obtain ⟨gap, hs, -, hquiet⟩ := exists_of_skipWideGap? hbehind
  obtain rfl : old = gap := (List.append_left_inj behind).1 hs
  obtain ⟨hread, hended⟩ := read_space (token.read out)
  rw [hread, hended]
  have hstart : StartsToken (old ++ behind) := by
    cases old with
    | nil => exact absurd rfl hold
    | cons c old =>
      intro d hd
      obtain rfl := Option.some.inj hd
      exact (isQuiet_iff.1 (hquiet c List.mem_cons_self)).1
  refine ⟨halong.pending hwords hstart, ?_⟩
  rcases read_quiet hquiet r with htoken | ⟨rfl, -⟩
  · rw [htoken]
    exact .same _
  · exact absurd rfl hold

end EquationExport.Latex
