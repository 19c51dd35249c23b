import EquationExport.Proofs.Text.Legible
import EquationExport.Proofs.Text.Mending

/-!
# Canonical texts

Cleaning deletes what a document cannot hold or a reader cannot see, and normalization makes one plain space of each
stretch of white space. No stage brings back what an earlier one took away: what one of them gives is a text that each of
them leaves as it is. So to clean or to normalize a text once more does nothing.
-/

namespace EquationExport

namespace CodePoint

variable {c : CodePoint}

theorem isSpace_of_isTypographicSpace (h : c.isTypographicSpace = true) : c.isSpace = true := by
  simp only [isTypographicSpace, isSpace, inRange, Bool.or_eq_true, Bool.and_eq_true, beq_iff_eq, decide_eq_true_eq] at h ⊢
  omega

/-- The controls that cleaning leaves are white space. -/
theorem not_control_of_not_isSpace (hcontrol : c.isControl = false) (hspace : c.isSpace = false) :
    0x20 < c.val ∧ c.inRange 0x7F 0x9F = false := by
  simp only [isControl, isSpace, inRange, Bool.or_eq_false_iff, Bool.and_eq_false_iff, beq_eq_false_iff_ne,
    decide_eq_false_iff_not] at hcontrol hspace ⊢
  omega

/-- The visible characters of ASCII are kept by cleaning, and are no white space. -/
theorem plain_of_visible (hfirst : 0x21 ≤ c.val) (hlast : c.val ≤ 0x7E) :
    c.isZeroWidth = false ∧ c.isSurrogate = false ∧ c.isControl = false ∧ c.isSpace = false := by
  simp only [isZeroWidth, isSurrogate, isControl, isSpace, inRange, Bool.or_eq_false_iff, Bool.and_eq_false_iff,
    beq_eq_false_iff_ne, decide_eq_false_iff_not]
  omega

theorem lt_of_isZeroWidth (h : c.isZeroWidth = true) : c.val < 0x10000 := by
  simp only [isZeroWidth, inRange, Bool.or_eq_true, Bool.and_eq_true, beq_iff_eq, decide_eq_true_eq] at h
  omega

end CodePoint

namespace Text

variable {s t : Text} {c : CodePoint}

/-! ### Cleaning -/

/-- Nothing is left that cleaning removes, whatever the stages have brought together. -/
theorem of_mem_sanitize (h : c ∈ s.sanitize) :
    c.isZeroWidth = false ∧ c.isSurrogate = false ∧ c.isControl = false := by
  obtain ⟨hmended, hcontrol⟩ := List.mem_filter.1 h
  have hsurrogate : c.isSurrogate = false :=
    hasSurrogate_eq_false_iff.1 (hasSurrogate_stripUnpairedSurrogates _) c hmended
  refine ⟨?_, hsurrogate, by simpa using hcontrol⟩
  rcases mem_stripUnpairedSurrogates hmended with ⟨hmem, -⟩ | hval
  · simpa using (List.mem_filter.1 hmem).2
  · -- The code point of a pair lies past all those without width.
    refine Bool.eq_false_iff.2 fun hwidth => ?_
    have := CodePoint.lt_of_isZeroWidth hwidth
    omega

theorem sanitize_of_forall (h : ∀ c ∈ s, c.isZeroWidth = false ∧ c.isSurrogate = false ∧ c.isControl = false) :
    s.sanitize = s := by
  have hwidth : s.stripZeroWidth = s := List.filter_eq_self.2 fun c hc => by simp [(h c hc).1]
  have hsurrogate : s.hasSurrogate = false := hasSurrogate_eq_false_iff.2 fun c hc => (h c hc).2.1
  rw [sanitize, hwidth, stripUnpairedSurrogates_of_no_surrogate hsurrogate]
  exact List.filter_eq_self.2 fun c hc => by simp [(h c hc).2.2]

theorem sanitize_sanitize (s : Text) : s.sanitize.sanitize = s.sanitize :=
  sanitize_of_forall fun _ => of_mem_sanitize

/-! ### Cleaning in parts -/

/-- The text without its surrogates, those in pairs included. -/
def dropSurrogates (s : Text) : Text := s.filter fun c => !c.isSurrogate

theorem joinPairs?_cons (hc : c.isSurrogate = false) (s : Text) : joinPairs? (c :: s) = (joinPairs? s).map (c :: ·) := by
  have hhigh : c.isHighSurrogate = false :=
    Bool.eq_false_iff.2 fun h => by simp [CodePoint.isSurrogate_of_isHighSurrogate h] at hc
  cases s with
  | nil => simp [joinPairs?, hc]
  | cons d s => simp [joinPairs?, hc, hhigh]

/-- Joining does not reach across a code point that is no surrogate. -/
theorem joinPairs?_append_cons (hc : c.isSurrogate = false) (s t : Text) :
    joinPairs? (s ++ c :: t) = (joinPairs? s).bind fun a => (joinPairs? t).map fun b => a ++ c :: b := by
  have hlow : c.isLowSurrogate = false :=
    Bool.eq_false_iff.2 fun h => by simp [CodePoint.isSurrogate_of_isLowSurrogate h] at hc
  fun_induction joinPairs? s with
  | case1 => exact joinPairs?_cons hc t
  | case2 d hd => simp [joinPairs?, hlow, hd]
  | case3 d hd =>
    rw [List.cons_append, joinPairs?_cons (Bool.eq_false_iff.2 hd), List.nil_append, joinPairs?_cons hc, Option.map_map]
    rfl
  | case4 d e s hpair ih =>
    rw [List.cons_append, List.cons_append, joinPairs?, if_pos hpair, ih]
    cases joinPairs? s <;> cases joinPairs? t <;> rfl
  | case5 d e s hpair hd => rw [List.cons_append, List.cons_append, joinPairs?, if_neg hpair, if_pos hd]; rfl
  | case6 d e s hpair hd ih =>
    rw [List.cons_append, joinPairs?_cons (Bool.eq_false_iff.2 hd), ih]
    cases joinPairs? (e :: s) <;> cases joinPairs? t <;> rfl

theorem stripUnpairedSurrogates_cons (hc : c.isSurrogate = false) (s : Text) :
    stripUnpairedSurrogates (c :: s) = c :: s.stripUnpairedSurrogates := by
  rw [stripUnpairedSurrogates, stripUnpairedSurrogates, joinPairs?_cons hc, List.filter_cons_of_pos (by simp [hc])]
  cases joinPairs? s <;> rfl

theorem stripUnpairedSurrogates_append (h : ∀ c ∈ t, c.isSurrogate = false) (s : Text) :
    (t ++ s).stripUnpairedSurrogates = t ++ s.stripUnpairedSurrogates := by
  induction t with
  | nil => rfl
  | cons c t ih =>
    rw [List.cons_append, stripUnpairedSurrogates_cons (h c List.mem_cons_self), ih fun d hd => h d (List.mem_cons_of_mem _ hd),
      List.cons_append]

/-- On both sides of a code point that is no surrogate the pairs are joined, or all surrogates go. -/
theorem exists_stripUnpairedSurrogates_append_cons (hc : c.isSurrogate = false) (s t : Text) :
    ∃ mend : Text → Text, (mend = id ∨ mend = dropSurrogates) ∧
      (s ++ c :: t).stripUnpairedSurrogates = (mend s).stripUnpairedSurrogates ++ c :: (mend t).stripUnpairedSurrogates := by
  have hdropped : ∀ s : Text, (dropSurrogates s).stripUnpairedSurrogates = dropSurrogates s := fun s =>
    stripUnpairedSurrogates_of_no_surrogate <| hasSurrogate_eq_false_iff.2 fun d hd => by simpa using (List.mem_filter.1 hd).2
  have hall : dropSurrogates (s ++ c :: t) = dropSurrogates s ++ c :: dropSurrogates t := by
    rw [dropSurrogates, List.filter_append, List.filter_cons_of_pos (by simp [hc])]
    rfl
  have hjoined := joinPairs?_append_cons hc s t
  cases hs : joinPairs? s with
  | none =>
    refine ⟨dropSurrogates, .inr rfl, ?_⟩
    rw [hdropped, hdropped, ← hall, stripUnpairedSurrogates, hjoined, hs]
    rfl
  | some a =>
    cases ht : joinPairs? t with
    | none =>
      refine ⟨dropSurrogates, .inr rfl, ?_⟩
      rw [hdropped, hdropped, ← hall, stripUnpairedSurrogates, hjoined, hs, ht]
      rfl
    | some b =>
      refine ⟨id, .inl rfl, ?_⟩
      rw [id, id, stripUnpairedSurrogates, stripUnpairedSurrogates, stripUnpairedSurrogates, hjoined, hs, ht]
      rfl

/--
A word that cleaning leaves alone stays where it is, and what stands on both sides is cleaned by itself. If a surrogate
stands alone anywhere, all of them go, on both sides.
-/
theorem exists_sanitize_append {w : Text}
    (hclean : ∀ d ∈ c :: w, d.isZeroWidth = false ∧ d.isSurrogate = false ∧ d.isControl = false) (s t : Text) :
    ∃ mend : Text → Text, (mend = id ∨ mend = dropSurrogates) ∧
      (s ++ (c :: w ++ t)).sanitize = (mend s).sanitize ++ (c :: w ++ (mend t).sanitize) := by
  have hwidth : stripZeroWidth (c :: w) = c :: w := List.filter_eq_self.2 fun d hd => by simp [(hclean d hd).1]
  have hcontrol : (c :: w).filter (fun d => !d.isControl) = c :: w :=
    List.filter_eq_self.2 fun d hd => by simp [(hclean d hd).2.2]
  have hsurrogate : ∀ d ∈ w, d.isSurrogate = false := fun d hd => (hclean d (List.mem_cons_of_mem _ hd)).2.1
  have hstrip : (s ++ (c :: w ++ t)).stripZeroWidth = s.stripZeroWidth ++ c :: (w ++ t.stripZeroWidth) := by
    rw [stripZeroWidth, List.filter_append, List.filter_append, ← stripZeroWidth, ← stripZeroWidth, ← stripZeroWidth, hwidth]
    rfl
  obtain ⟨mend, hmend, heq⟩ := exists_stripUnpairedSurrogates_append_cons (hclean c List.mem_cons_self).2.1 s.stripZeroWidth
    (w ++ t.stripZeroWidth)
  have hcommute : ∀ s, mend (stripZeroWidth s) = stripZeroWidth (mend s) := by
    intro s
    rcases hmend with rfl | rfl
    · rfl
    · simp only [stripZeroWidth, dropSurrogates, List.filter_filter, Bool.and_comm]
  have hword : mend (w ++ t.stripZeroWidth) = w ++ mend t.stripZeroWidth := by
    rcases hmend with rfl | rfl
    · rfl
    · rw [dropSurrogates, List.filter_append, List.filter_eq_self.2 fun d hd => by simp [hsurrogate d hd]]
      rfl
  refine ⟨mend, hmend, ?_⟩
  rw [sanitize, hstrip, heq, hword, stripUnpairedSurrogates_append hsurrogate, hcommute, hcommute, ← List.cons_append,
    List.filter_append, List.filter_append, hcontrol]
  rfl

/-! ### Spaces -/

theorem of_mem_plainSpaces (h : c ∈ s.plainSpaces) : c = ' ' ∨ (c ∈ s ∧ c.isTypographicSpace = false) := by
  obtain ⟨d, hd, rfl⟩ := List.mem_map.1 h
  split
  · exact .inl rfl
  · next hspace => exact .inr ⟨hd, Bool.eq_false_iff.2 hspace⟩

theorem plainSpaces_of_forall (h : ∀ c ∈ s, c.isTypographicSpace = false) : s.plainSpaces = s :=
  (List.map_congr_left fun c hc => by simp [h c hc]).trans (List.map_id s)

theorem of_mem_collapseSpaceFrom {inSpace : Bool} (h : c ∈ collapseSpaceFrom inSpace s) :
    c = ' ' ∨ (c ∈ s ∧ c.isSpace = false) := by
  induction s generalizing inSpace with
  | nil => simp [collapseSpaceFrom] at h
  | cons d s ih =>
    have hrest : ∀ {inSpace}, c ∈ collapseSpaceFrom inSpace s → c = ' ' ∨ (c ∈ d :: s ∧ c.isSpace = false) :=
      fun h => (ih h).imp_right fun h => ⟨List.mem_cons_of_mem _ h.1, h.2⟩
    by_cases hd : d.isSpace = true
    · simp only [collapseSpaceFrom, hd, if_true] at h
      split at h
      · exact hrest h
      · exact (List.mem_cons.1 h).elim .inl hrest
    · simp only [collapseSpaceFrom, hd] at h
      rcases List.mem_cons.1 h with rfl | h
      · exact .inr ⟨List.mem_cons_self, Bool.eq_false_iff.2 hd⟩
      · exact hrest h

/-- No two spaces stand in a row, counting one that has been written before. -/
theorem not_double_collapseSpaceFrom (inSpace : Bool) (s : Text) :
    ¬[(' ' : CodePoint), ' '] <:+: collapseSpaceFrom inSpace s ∧
      (inSpace = true → ¬[(' ' : CodePoint)] <+: collapseSpaceFrom inSpace s) := by
  induction s generalizing inSpace with
  | nil => simp [collapseSpaceFrom]
  | cons c s ih =>
    by_cases hc : c.isSpace = true
    · cases inSpace with
      | true =>
        rw [collapseSpaceFrom, if_pos hc, if_pos rfl]
        exact ih true
      | false =>
        simp only [collapseSpaceFrom, hc, if_true, Bool.false_eq_true, if_false, List.infix_cons_iff]
        refine ⟨?_, fun h => absurd h (by simp)⟩
        rintro (hfront | hbehind)
        · exact (ih true).2 rfl (List.cons_prefix_cons.1 hfront).2
        · exact (ih true).1 hbehind
    · have hne : ¬(' ' : CodePoint) = c := by
        rintro rfl
        exact hc (by decide)
      rw [collapseSpaceFrom, if_neg hc, List.infix_cons_iff]
      refine ⟨?_, fun _ hfront => hne (List.cons_prefix_cons.1 hfront).1⟩
      rintro (hfront | hbehind)
      · exact hne (List.cons_prefix_cons.1 hfront).1
      · exact (ih false).1 hbehind

theorem collapseSpaceFrom_of_single {inSpace : Bool} (hspace : ∀ c ∈ s, c.isSpace = true → c = ' ')
    (hsingle : ¬[(' ' : CodePoint), ' '] <:+: s) (hfront : inSpace = true → ¬[(' ' : CodePoint)] <+: s) :
    collapseSpaceFrom inSpace s = s := by
  induction s generalizing inSpace with
  | nil => rfl
  | cons c s ih =>
    rw [List.infix_cons_iff, not_or] at hsingle
    have hrest : ∀ d ∈ s, d.isSpace = true → d = ' ' := fun d hd => hspace d (List.mem_cons_of_mem _ hd)
    by_cases hc : c.isSpace = true
    · obtain rfl := hspace c List.mem_cons_self hc
      cases inSpace with
      | true => exact absurd (List.cons_prefix_cons.2 ⟨rfl, List.nil_prefix⟩) (hfront rfl)
      | false =>
        have hnext : ¬[(' ' : CodePoint)] <+: s := fun h => hsingle.1 (List.cons_prefix_cons.2 ⟨rfl, h⟩)
        simp only [collapseSpaceFrom, hc, if_true, Bool.false_eq_true, if_false]
        rw [ih hrest hsingle.2 fun _ => hnext]
    · rw [collapseSpaceFrom, if_neg hc, ih hrest hsingle.2 (by simp)]

/-! ### Normalization -/

/-- A text as normalization leaves it. -/
structure Canonical (s : Text) : Prop where
  /-- A plain space is all the white space there is. -/
  space : ∀ c ∈ s, c.isSpace = true → c = ' '
  /-- No two spaces stand in a row. -/
  single : ¬[(' ' : CodePoint), ' '] <:+: s
  width : ∀ c ∈ s, c.isZeroWidth = false
  surrogate : ∀ c ∈ s, c.isSurrogate = false
  /-- No code point is a control of Unicode. -/
  control : ∀ c ∈ s, 0x20 ≤ c.val ∧ c.inRange 0x7F 0x9F = false

theorem canonical_normalize (s : Text) : Canonical s.normalize := by
  have hmem : ∀ c ∈ s.normalize, c = ' ' ∨ (c ∈ s.sanitize ∧ c.isSpace = false) := by
    intro c hc
    rcases of_mem_collapseSpaceFrom hc with heq | ⟨hc, hspace⟩
    · exact .inl heq
    · exact (of_mem_plainSpaces hc).imp_right fun h => ⟨h.1, hspace⟩
  constructor
  case space =>
    intro c hc hspace
    rcases hmem c hc with heq | ⟨-, hnot⟩
    · exact heq
    · simp [hnot] at hspace
  case single => exact (not_double_collapseSpaceFrom false _).1
  case width =>
    intro c hc
    rcases hmem c hc with rfl | ⟨hc, -⟩
    · decide
    · exact (of_mem_sanitize hc).1
  case surrogate =>
    intro c hc
    rcases hmem c hc with rfl | ⟨hc, -⟩
    · decide
    · exact (of_mem_sanitize hc).2.1
  case control =>
    intro c hc
    rcases hmem c hc with rfl | ⟨hc, hspace⟩
    · decide
    · have := CodePoint.not_control_of_not_isSpace (of_mem_sanitize hc).2.2 hspace
      exact ⟨Nat.le_of_lt this.1, this.2⟩

/-- A canonical text is left as it is. -/
theorem Canonical.normalize_eq (h : Canonical s) : s.normalize = s := by
  have hcontrol : ∀ c ∈ s, c.isControl = false := by
    intro c hc
    have := h.control c hc
    simp only [CodePoint.isControl, CodePoint.inRange, Bool.or_eq_false_iff, Bool.and_eq_false_iff, beq_eq_false_iff_ne,
      decide_eq_false_iff_not] at this ⊢
    omega
  have htypographic : ∀ c ∈ s, c.isTypographicSpace = false := by
    intro c hc
    refine Bool.eq_false_iff.2 fun htypographic => ?_
    obtain rfl := h.space c hc (CodePoint.isSpace_of_isTypographicSpace htypographic)
    exact absurd htypographic (by decide)
  rw [normalize, sanitize_of_forall fun c hc => ⟨h.width c hc, h.surrogate c hc, hcontrol c hc⟩,
    plainSpaces_of_forall htypographic, collapseSpace]
  exact collapseSpaceFrom_of_single h.space h.single (by simp)

theorem normalizePreformatted_normalizePreformatted (s : Text) :
    s.normalizePreformatted.normalizePreformatted = s.normalizePreformatted := by
  have hmem : ∀ c ∈ s.normalizePreformatted, c = ' ' ∨ (c ∈ s.sanitize ∧ c ≠ '\u00A0') := by
    intro c hc
    obtain ⟨d, hd, rfl⟩ := List.mem_map.1 hc
    split
    · exact .inl rfl
    · next hne => exact .inr ⟨hd, hne⟩
  have hclean : s.normalizePreformatted.sanitize = s.normalizePreformatted := by
    refine sanitize_of_forall fun c hc => ?_
    rcases hmem c hc with rfl | ⟨hc, -⟩
    · decide
    · exact of_mem_sanitize hc
  rw [normalizePreformatted.eq_1 s.normalizePreformatted, hclean, replacePoint]
  refine (List.map_congr_left fun c hc => ?_).trans (List.map_id _)
  rcases hmem c hc with rfl | ⟨-, hne⟩
  · decide
  · rw [if_neg hne, id]

/--
What normalization gives is canonical, and stays as it is when it is normalized again. To clean a text beforehand makes no
difference to it, and the other ways of cleaning do nothing the second time either.
-/
theorem normalize_canonical (s : Text) :
    Canonical s.normalize ∧ s.normalize.normalize = s.normalize ∧ s.sanitize.normalize = s.normalize ∧
      s.sanitize.sanitize = s.sanitize ∧ s.normalizePreformatted.normalizePreformatted = s.normalizePreformatted := by
  refine ⟨canonical_normalize s, (canonical_normalize s).normalize_eq, ?_, sanitize_sanitize s,
    normalizePreformatted_normalizePreformatted s⟩
  rw [normalize, sanitize_sanitize, ← normalize]

end Text

end EquationExport
