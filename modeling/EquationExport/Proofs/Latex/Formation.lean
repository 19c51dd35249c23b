import EquationExport.Proofs.Latex.Change

/-!
# Words that are taken away

The steps to the normal form look for sizes, styles, spaces and fractions of a fixed style once each, from left to
right. Wherever the backslash of one of these words stands, be it the second of a row separator, the word is found. One
is left over only if a deletion behind it puts it together from the pieces around a command, as `\b\big ig x` becomes
`\big x`. A step that puts something in the place of a command puts no word together.
-/

namespace EquationExport.Latex

open Reached

variable {before : Option CodePoint} {s t old rest put out w r : Text} {words found lacking : List Text} {places : List (Text × Text)}
  {rule : Text.Rule} {clean : Text → Text → Prop} {c : CodePoint}

/-! ### Words that stand in a text -/

/-- No backslash is followed by the letters of one of the words and no letter more, be it the second of two or not. -/
def Lacks (words : List Text) (s : Text) : Prop := ∀ r, ('\\' : CodePoint) :: r <:+ s → r.takeWhile (·.isAsciiLetter) ∉ words

/-- The letters of a word that is open at the end of a text, if a code point more follows. -/
def extendWord (word? : Option Text) (c : CodePoint) : Option Text :=
  if c = '\\' then some [] else if c.isAsciiLetter then word?.map (· ++ [c]) else none

/-- The letters behind the last backslash, if there are no others behind it. -/
def openWord? (out : Text) : Option Text := out.foldl extendWord none

/-- A backslash and letters in front of a place form one of the words with the letters behind it. -/
def Forms (words : List Text) (out rest : Text) : Prop :=
  ∃ w ∈ openWord? out, w ++ rest.takeWhile (·.isAsciiLetter) ∈ words

instance (words : List Text) (out rest : Text) : Decidable (Forms words out rest) :=
  inferInstanceAs (Decidable (∃ w ∈ openWord? out, w ++ rest.takeWhile (·.isAsciiLetter) ∈ words))

theorem openWord?_concat (out : Text) (c : CodePoint) : openWord? (out ++ [c]) = extendWord (openWord? out) c := by
  rw [openWord?, List.foldl_append]
  rfl

theorem openWord?_space (out : Text) : openWord? (out ++ (" " : Text)) = none := by
  rw [openWord?, List.foldl_append]
  rfl

theorem openWord?_fraction (out : Text) : openWord? (out ++ ("\\frac" : Text)) = some ("frac" : Text) := by
  rw [openWord?, List.foldl_append]
  rfl

theorem takeWhile_of_startsToken (h : StartsToken s) : s.takeWhile (·.isAsciiLetter) = [] := by
  cases s with
  | nil => rfl
  | cons c s => exact List.takeWhile_cons_of_neg (by simp [h c rfl])

/-- Words are formed by letters alone. -/
theorem forms_congr (h : s.takeWhile (·.isAsciiLetter) = t.takeWhile (·.isAsciiLetter)) (words : List Text) (out : Text) :
    Forms words out s ↔ Forms words out t := by
  rw [Forms, Forms, h]

theorem forms_letter (h : c.isAsciiLetter = true) : Forms words (out ++ [c]) s ↔ Forms words out (c :: s) := by
  have hc : c ≠ '\\' := by
    rintro rfl
    exact absurd h (by decide)
  simp only [Forms, openWord?_concat, extendWord, if_neg hc, if_pos h, List.takeWhile_cons_of_pos h]
  constructor
  · rintro ⟨w, hw, hmem⟩
    obtain ⟨w', hw', rfl⟩ := Option.map_eq_some_iff.1 hw
    exact ⟨w', hw', by simpa using hmem⟩
  · rintro ⟨w, hw, hmem⟩
    exact ⟨w ++ [c], Option.map_eq_some_iff.2 ⟨w, hw, rfl⟩, by simpa using hmem⟩

theorem forms_backslash : Forms words (out ++ [('\\' : CodePoint)]) s ↔ s.takeWhile (·.isAsciiLetter) ∈ words := by
  simp [Forms, openWord?_concat, extendWord]

theorem not_forms_of_isQuiet (h : isQuiet c = true) : ¬ Forms words (out ++ [c]) s := by
  obtain ⟨hletter, hc⟩ := isQuiet_iff.1 h
  simp [Forms, openWord?_concat, extendWord, hletter, hc]

theorem lacks_append_of_not_mem (h : ('\\' : CodePoint) ∉ t) : Lacks words (t ++ s) ↔ Lacks words s := by
  induction t with
  | nil => rfl
  | cons c t ih =>
    rw [List.mem_cons, not_or] at h
    rw [← ih h.2]
    constructor
    · exact fun hlacks r hr => hlacks r (hr.trans (List.suffix_cons _ _))
    · intro hlacks r hr
      rcases List.suffix_cons_iff.1 hr with heq | hr
      · exact absurd (List.cons.inj heq).1 h.1
      · exact hlacks r hr

theorem lacks_cons_backslash : Lacks words (('\\' : CodePoint) :: s) ↔ s.takeWhile (·.isAsciiLetter) ∉ words ∧ Lacks words s := by
  constructor
  · exact fun hlacks => ⟨hlacks s (List.suffix_refl _), fun r hr => hlacks r (hr.trans (List.suffix_cons _ _))⟩
  · rintro ⟨hfirst, hlacks⟩ r hr
    rcases List.suffix_cons_iff.1 hr with heq | hr
    · rwa [(List.cons.inj heq).2]
    · exact hlacks r hr

/-- A control word stands behind a backslash. -/
theorem exists_of_mem_controlWords (h : w ∈ controlWords s) :
    ∃ r, ('\\' : CodePoint) :: r <:+ s ∧ r.takeWhile (·.isAsciiLetter) = w := by
  unfold controlWords at h
  fun_induction tokens s with
  | case1 | case2 => simp [Token.letters?] at h
  | case3 d s hd ih =>
    rcases List.mem_cons.1 h with rfl | h
    · exact ⟨d :: s, List.suffix_refl _, List.takeWhile_cons_of_pos hd⟩
    · obtain ⟨r, hr, hw⟩ := ih h
      exact ⟨r, hr.trans ((List.dropWhile_suffix _).trans ((List.suffix_cons _ _).trans (List.suffix_cons _ _))), hw⟩
  | case4 d s hd ih =>
    obtain ⟨r, hr, hw⟩ := ih h
    exact ⟨r, hr.trans ((List.suffix_cons _ _).trans (List.suffix_cons _ _)), hw⟩
  | case5 c d s hc ih =>
    obtain ⟨r, hr, hw⟩ := ih h
    exact ⟨r, hr.trans (List.suffix_cons _ _), hw⟩

theorem Lacks.controlWords (h : Lacks words s) : ∀ w ∈ controlWords s, w ∉ words := by
  intro w hw
  obtain ⟨r, hr, rfl⟩ := exists_of_mem_controlWords hw
  exact h r hr

/-! ### Words that are not formed -/

/-- The rule forms none of the words, as long as what has been put out and what is left are `clean`. -/
def FormsNone (words : List Text) (rule : Text.Rule) (clean : Text → Text → Prop) : Prop :=
  ∀ {before out old rest put}, rule before (old ++ rest) = some (put, rest) → clean out rest →
    put = " " ∨ ¬ Forms words (out ++ put) rest

/-- What is taken away starts with no letter. -/
theorem Change.startsToken (h : Change before old put) (rest : Text) : StartsToken (old ++ rest) := by
  cases h with
  | word | symbol | fraction => exact startsToken_backslash _
  | gap hne hquiet =>
    intro c hc
    rw [List.head?_append_of_ne_nil old hne] at hc
    exact (isQuiet_iff.1 (hquiet c (List.mem_of_mem_head? hc))).1

/-- What is put in the place of a change holds none of the words, if none is formed with what follows. -/
theorem Change.lacks (h : Change before old put) (hopen : ¬ Forms words out (old ++ rest))
    (ht : ¬ Forms words (out ++ put) t ∧ Lacks words t) : ¬ Forms words out (put ++ t) ∧ Lacks words (put ++ t) := by
  have hold := takeWhile_of_startsToken (h.startsToken rest)
  obtain ⟨hforms, hlacks⟩ := ht
  rcases h.put_cases with ⟨rfl, -⟩ | rfl | ⟨rfl, -⟩
  · rw [List.append_nil] at hforms
    exact ⟨hforms, hlacks⟩
  · exact ⟨(forms_congr (hold.trans rfl) _ _).not.1 hopen, (lacks_append_of_not_mem (by decide)).2 hlacks⟩
  · have hletters : ∀ c ∈ ("frac" : Text), c.isAsciiLetter = true := by decide
    have hword : (("frac" : Text) ++ t).takeWhile (·.isAsciiLetter) ∉ words := by
      rw [List.takeWhile_append_of_pos hletters]
      exact fun hmem => hforms ⟨_, openWord?_fraction out, hmem⟩
    exact ⟨(forms_congr (hold.trans rfl) _ _).not.1 hopen,
      lacks_cons_backslash.2 ⟨hword, (lacks_append_of_not_mem (backslash_not_mem_of_letters hletters)).2 hlacks⟩⟩

theorem isQuiet_of_ne (hc : c ≠ '\\') (h : ¬ c.isAsciiLetter = true) : isQuiet c = true :=
  isQuiet_iff.2 ⟨by simpa using h, hc⟩

/-- In what is made of a source by a rule that forms none of the words, none stands that the rule finds or the source lacks. -/
theorem lacks_of_rewriting (hrule : Changes rule) (hforms : FormsNone words rule clean)
    (h : Text.Rewriting rule out before s t places) :
    (∀ place ∈ places, clean place.1 place.2) →
      (∀ before r, ('\\' : CodePoint) :: r <:+ s → rule before (('\\' : CodePoint) :: r) = none → r.takeWhile (·.isAsciiLetter) ∉ words) →
      ¬ Forms words out s → ¬ Forms words out t ∧ Lacks words t := by
  induction h with
  | done => exact fun _ _ hopen => ⟨hopen, fun r hr => by simp at hr⟩
  | @keep out before c s t places hnone _ ih =>
    intro hclean hkept hopen
    have hrest := ih hclean fun before r hr => hkept before r (hr.trans (List.suffix_cons _ _))
    -- A backslash opens a word, a letter is added to the word that is open, and any other character ends it.
    by_cases hc : c = '\\'
    · subst hc
      obtain ⟨hforms', hlacks⟩ := hrest (forms_backslash.not.2 (hkept before s (List.suffix_refl _) hnone))
      exact ⟨(forms_congr rfl _ _).not.1 hopen, lacks_cons_backslash.2 ⟨forms_backslash.not.1 hforms', hlacks⟩⟩
    · have hpoint : ∀ {t}, Lacks words t → Lacks words (c :: t) := (lacks_append_of_not_mem (t := [c]) (by simpa using Ne.symm hc)).2
      by_cases hletter : c.isAsciiLetter = true
      · obtain ⟨hforms', hlacks⟩ := hrest ((forms_letter hletter).not.2 hopen)
        exact ⟨(forms_letter hletter).not.1 hforms', hpoint hlacks⟩
      · have hstart : ∀ t, (c :: t).takeWhile (·.isAsciiLetter) = [] := fun t => List.takeWhile_cons_of_neg hletter
        obtain ⟨-, hlacks⟩ := hrest (not_forms_of_isQuiet (isQuiet_of_ne hc hletter))
        exact ⟨(forms_congr ((hstart s).trans (hstart t).symm) _ _).not.1 hopen, hpoint hlacks⟩
  | @apply out before old rest put t places hold happly _ ih =>
    intro hclean hkept hopen
    have hopen' : ¬ Forms words (out ++ put) rest := by
      rcases hforms happly (hclean _ List.mem_cons_self) with rfl | hforms
      · simp [Forms, openWord?_space]
      · exact hforms
    exact (hrule hold happly).lacks hopen (ih (fun place hplace => hclean place (List.mem_cons_of_mem _ hplace))
      (fun before r hr => hkept before r (hr.trans (List.suffix_append _ _))) hopen')

/-- A rule finds the words, wherever their backslash stands. -/
def Finds (rule : Text.Rule) (words : List Text) : Prop :=
  ∀ before r, rule before (('\\' : CodePoint) :: r) = none → r.takeWhile (·.isAsciiLetter) ∉ words

/-- What a source lacks and what the rule finds is lacking behind the rule, as long as it forms none of these words. -/
theorem lacks_substitute (rule : Text.Rule) (hrule : Changes rule) (hadvances : rule.Advances) (hforms : FormsNone words rule clean)
    (hfinds : Finds rule found) (hwords : ∀ w ∈ words, w ∈ lacking ∨ w ∈ found)
    (hclean : ∀ place ∈ s.applications rule, clean place.1 place.2) (h : Lacks lacking s) : Lacks words (s.substitute rule) := by
  have hopen : ¬ Forms words [] s := by simp [Forms, openWord?]
  refine (lacks_of_rewriting hrule hforms (Text.rewriting_substitute hadvances s) hclean (fun before r hr hnone hmem => ?_) hopen).2
  rcases hwords _ hmem with hmem | hmem
  · exact h r hr hmem
  · exact hfinds before r hnone hmem

/-! ### The steps and the words -/

/-- A word at the front is found, unless it has no letters. -/
theorem takeWhile_not_mem_of_skipWord? (hne : [] ∉ words) (h : skipWord? words (('\\' : CodePoint) :: r) = none) :
    r.takeWhile (·.isAsciiLetter) ∉ words := by
  intro hmem
  have hempty : (r.takeWhile (·.isAsciiLetter)).isEmpty = false := by
    cases hword : r.takeWhile (·.isAsciiLetter) with
    | nil => exact absurd (hword ▸ hmem) hne
    | cons => rfl
  have hslash : Text.dropPrefix? (('\\' : CodePoint) :: r) "\\" = some r := Text.dropPrefix?_append [('\\' : CodePoint)] r
  simp only [skipWord?, controlWord?, hslash, Text.span, hempty, Bool.false_eq_true, if_false, if_pos hmem] at h
  cases h

theorem finds_nil (rule : Text.Rule) : Finds rule [] := fun _ _ _ => List.not_mem_nil

theorem finds_wordDeletion (hne : [] ∉ found) : Finds (wordDeletion found) found := by
  intro before r h
  rw [wordDeletion, Text.deleting, Text.replacing, Option.map_eq_none_iff, Option.map_eq_none_iff] at h
  exact takeWhile_not_mem_of_skipWord? hne h

theorem finds_spacingRule : Finds spacingRule spaceWords := by
  intro before r h
  rw [spacingRule, Option.map_eq_none_iff, Option.or_eq_none_iff] at h
  exact takeWhile_not_mem_of_skipWord? (by decide) h.1

theorem finds_fractionRule : Finds fractionRule fractionWords := by
  intro before r h
  rw [fractionRule, Text.replacing, Option.map_eq_none_iff] at h
  exact takeWhile_not_mem_of_skipWord? (by decide) h

theorem formsNone_wordDeletion (words found : List Text) :
    FormsNone words (wordDeletion found) fun out rest => ¬ Forms words out rest := by
  intro before out old rest put happly hclean
  obtain ⟨rfl, -⟩ := exists_of_wordDeletion happly
  rw [List.append_nil]
  exact .inr hclean

theorem formsNone_negativeSpaceDeletion (words : List Text) :
    FormsNone words negativeSpaceDeletion fun out rest => ¬ Forms words out rest := by
  intro before out old rest put happly hclean
  obtain ⟨rfl, -⟩ := exists_of_negativeSpaceDeletion happly
  rw [List.append_nil]
  exact .inr hclean

theorem formsNone_spacingRule (words : List Text) : FormsNone words spacingRule fun _ _ => True :=
  fun happly _ => .inl (exists_of_spacingRule happly).1

theorem formsNone_fractionRule (hfrac : ("frac" : Text) ∉ words) : FormsNone words fractionRule fun _ _ => True := by
  intro before out old rest put happly _
  obtain ⟨rfl, word, -, -, -, -, hstart⟩ := exists_of_fractionRule happly
  refine .inr ?_
  rintro ⟨w, hw, hmem⟩
  obtain rfl := Option.some.inj ((openWord?_fraction out).symm.trans hw)
  rw [takeWhile_of_startsToken hstart, List.append_nil] at hmem
  exact hfrac hmem

theorem formsNone_gapRule (words : List Text) : FormsNone words gapRule fun _ _ => True :=
  fun happly _ => .inl (exists_of_gapRule happly).1

/-- No deletion on the way to the normal form puts a word together that is taken away by then. -/
structure Unformed (s : Text) : Prop where
  sizes : ∀ place ∈ (expanded s).applications (wordDeletion sizeWords), ¬ Forms sizeWords place.1 place.2
  styles : ∀ place ∈ (withoutSizes s).applications (wordDeletion styleWords), ¬ Forms (sizeWords ++ styleWords) place.1 place.2
  negativeSpaces : ∀ place ∈ (withPlainSpaces s).applications negativeSpaceDeletion,
    ¬ Forms (sizeWords ++ styleWords ++ spaceWords) place.1 place.2

/-- The words that are taken away. -/
def removedWords : List Text := sizeWords ++ styleWords ++ spaceWords ++ fractionWords

theorem not_mem_controlWords_normalize (h : Unformed s) : ∀ w ∈ controlWords (normalize s), w ∉ removedWords := by
  have hsizes : Lacks sizeWords (withoutSizes s) := lacks_substitute (wordDeletion sizeWords)
    (changes_wordDeletion _) (advances_wordDeletion _) (formsNone_wordDeletion _ _) (finds_wordDeletion (by decide))
    (fun _ hw => .inr hw) h.sizes (fun _ _ => List.not_mem_nil)
  have hstyles : Lacks (sizeWords ++ styleWords) (withoutStyles s) := lacks_substitute (wordDeletion styleWords)
    (changes_wordDeletion _) (advances_wordDeletion _) (formsNone_wordDeletion _ _) (finds_wordDeletion (by decide))
    (fun _ => List.mem_append.1) h.styles hsizes
  have hspaces : Lacks (sizeWords ++ styleWords ++ spaceWords) (withPlainSpaces s) := lacks_substitute spacingRule
    changes_spacingRule advances_spacingRule (formsNone_spacingRule _) finds_spacingRule
    (fun _ => List.mem_append.1) (fun _ _ => trivial) hstyles
  have hnegative : Lacks (sizeWords ++ styleWords ++ spaceWords) (withoutNegativeSpaces s) :=
    lacks_substitute negativeSpaceDeletion changes_negativeSpaceDeletion advances_negativeSpaceDeletion
      (formsNone_negativeSpaceDeletion _) (finds_nil _) (fun _ => .inl) h.negativeSpaces hspaces
  have hfractions : Lacks removedWords (withPlainFractions s) := lacks_substitute fractionRule
    changes_fractionRule advances_fractionRule (formsNone_fractionRule (by decide)) finds_fractionRule
    (fun _ => List.mem_append.1) (fun _ _ => trivial) hnegative
  have hgaps : Lacks removedWords ((withPlainFractions s).substitute gapRule) := lacks_substitute gapRule
    changes_gapRule advances_gapRule (formsNone_gapRule _) (finds_nil _) (fun _ => .inl) (fun _ _ => trivial) hfractions
  exact fun w hw => hgaps.controlWords w (controlWords_trim _ hw)

end EquationExport.Latex
