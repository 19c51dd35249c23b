import EquationExport.Proofs.Text.Canonical
import EquationExport.Proofs.Text.Membership
import EquationExport.Xml.Writer

/-!
# What cleaning leaves

Cleaning is there to remove what no document can hold, and it does so but for two code points: U+FFFE and U+FFFF are no
characters of XML, and no stage of cleaning knows them. They are left in every text that has them, so that a cleaned text
can be written exactly if the text as given has neither.
-/

namespace EquationExport

namespace CodePoint

variable {c : CodePoint}

/-- One of the last two code points of the basic plane, which are no characters. -/
def isBasicEnd (c : CodePoint) : Bool := c.val == 0xFFFE || c.val == 0xFFFF

theorem eq_ofChar_iff {a : Char} : c = ofChar a ↔ c.val = a.toNat := by
  constructor
  · rintro rfl
    rfl
  · intro h
    cases c
    simp only [ofChar, mk.injEq]
    exact h

/-- Apart from the two, cleaning and the characters of XML leave no gap between them. -/
theorem isXml_iff_of_clean (hsurrogate : c.isSurrogate = false) (hcontrol : c.isControl = false) :
    c.isXml = true ↔ c.isBasicEnd = false := by
  have hlt := c.isLt
  simp only [isSurrogate, isControl, inRange, Bool.or_eq_false_iff, Bool.and_eq_false_iff, beq_eq_false_iff_ne,
    decide_eq_false_iff_not] at hsurrogate hcontrol
  simp only [isXml, isBasicEnd, inRange, Bool.or_eq_true, Bool.or_eq_false_iff, Bool.and_eq_true, beq_iff_eq,
    beq_eq_false_iff_ne, decide_eq_true_eq, eq_ofChar_iff]
  have htab : '\t'.toNat = 9 := rfl
  have hfeed : '\n'.toNat = 10 := rfl
  have hreturn : '\r'.toNat = 13 := rfl
  omega

/-- No stage of cleaning has to do with the two. -/
theorem clean_of_isBasicEnd (h : c.isBasicEnd = true) :
    c.isZeroWidth = false ∧ c.isSurrogate = false ∧ c.isControl = false ∧ c.isSpace = false := by
  simp only [isBasicEnd, Bool.or_eq_true, beq_iff_eq] at h
  simp only [isZeroWidth, isSurrogate, isControl, isSpace, inRange, Bool.or_eq_false_iff, Bool.and_eq_false_iff,
    beq_eq_false_iff_ne, decide_eq_false_iff_not]
  omega

theorem ne_space_of_isBasicEnd (h : c.isBasicEnd = true) : c ≠ ' ' := by
  rintro rfl
  exact absurd h (by decide)

theorem not_isXml_of_isBasicEnd (h : c.isBasicEnd = true) : ¬c.isXml = true := by
  obtain ⟨-, hsurrogate, hcontrol, -⟩ := clean_of_isBasicEnd h
  rw [isXml_iff_of_clean hsurrogate hcontrol, h]
  exact Bool.noConfusion

end CodePoint

namespace Text

variable {s t : Text} {c : CodePoint}

/-! ### The stages of cleaning -/

theorem mem_sanitize_iff (hc : c.isBasicEnd = true) : c ∈ s.sanitize ↔ c ∈ s := by
  obtain ⟨hwidth, hsurrogate, hcontrol, -⟩ := CodePoint.clean_of_isBasicEnd hc
  have hval : c.val < 0x10000 := by
    simp only [CodePoint.isBasicEnd, Bool.or_eq_true, beq_iff_eq] at hc
    omega
  rw [sanitize, List.mem_filter]
  constructor
  · rintro ⟨hmended, -⟩
    rcases mem_stripUnpairedSurrogates hmended with ⟨hmem, -⟩ | hle
    · exact (List.mem_filter.1 hmem).1
    · omega
  · intro hmem
    refine ⟨mem_stripUnpairedSurrogates_of_mem ?_ hsurrogate, by simp [hcontrol]⟩
    exact List.mem_filter.2 ⟨hmem, by simp [hwidth]⟩

theorem mem_plainSpaces_of_mem (hc : c ∈ s) (hspace : c.isSpace = false) : c ∈ s.plainSpaces := by
  have htypographic : ¬c.isTypographicSpace = true := fun h => by
    simp [CodePoint.isSpace_of_isTypographicSpace h] at hspace
  exact List.mem_map.2 ⟨c, hc, if_neg htypographic⟩

theorem mem_collapseSpaceFrom_of_mem {inSpace : Bool} (hc : c ∈ s) (hspace : c.isSpace = false) :
    c ∈ collapseSpaceFrom inSpace s := by
  induction s generalizing inSpace with
  | nil => cases hc
  | cons d s ih =>
    rw [collapseSpaceFrom]
    by_cases hd : d.isSpace = true
    · have hmem : c ∈ s := (List.mem_cons.1 hc).resolve_left fun heq => by simp [heq, hd] at hspace
      rw [if_pos hd]
      split
      · exact ih hmem
      · exact List.mem_cons_of_mem _ (ih hmem)
    · rw [if_neg hd]
      rcases List.mem_cons.1 hc with rfl | hmem
      · exact List.mem_cons_self
      · exact List.mem_cons_of_mem _ (ih hmem)

theorem mem_normalize_iff (hc : c.isBasicEnd = true) : c ∈ s.normalize ↔ c ∈ s := by
  have hspace := (CodePoint.clean_of_isBasicEnd hc).2.2.2
  have hne := CodePoint.ne_space_of_isBasicEnd hc
  refine Iff.trans ?_ (mem_sanitize_iff hc)
  rw [normalize, collapseSpace]
  constructor
  · intro h
    have hplain := (of_mem_collapseSpaceFrom h).resolve_left hne
    exact ((of_mem_plainSpaces hplain.1).resolve_left hne).1
  · intro h
    exact mem_collapseSpaceFrom_of_mem (mem_plainSpaces_of_mem h hspace) hspace

theorem mem_normalizePreformatted_iff (hc : c.isBasicEnd = true) : c ∈ s.normalizePreformatted ↔ c ∈ s := by
  refine Iff.trans ?_ (mem_sanitize_iff hc)
  rw [normalizePreformatted]
  constructor
  · intro h
    exact (mem_of_mem_replacePoint h).resolve_right (CodePoint.ne_space_of_isBasicEnd hc)
  · intro h
    have hne : ¬c = '\u00A0' := by
      rintro rfl
      exact absurd hc (by decide)
    exact List.mem_map.2 ⟨c, h, if_neg hne⟩

/-! ### Texts that are clean but for the two -/

/-- A text without a character that no document can hold, but for the last two code points of the basic plane. -/
def IsSifted (s : Text) : Prop := ∀ c ∈ s, c.isXml = true ↔ c.isBasicEnd = false

theorem isSifted_sanitize (s : Text) : IsSifted s.sanitize := fun _ hc =>
  CodePoint.isXml_iff_of_clean (of_mem_sanitize hc).2.1 (of_mem_sanitize hc).2.2

theorem isSifted_normalize (s : Text) : IsSifted s.normalize := by
  intro c hc
  rcases of_mem_collapseSpaceFrom hc with rfl | ⟨hplain, -⟩
  · decide
  rcases of_mem_plainSpaces hplain with rfl | ⟨hclean, -⟩
  · decide
  · exact isSifted_sanitize s c hclean

theorem isSifted_normalizePreformatted (s : Text) : IsSifted s.normalizePreformatted := by
  intro c hc
  rcases mem_of_mem_replacePoint hc with hclean | rfl
  · exact isSifted_sanitize s c hclean
  · decide

theorem IsSifted.exists_writable_iff (h : IsSifted s) :
    (∃ t, Xml.writable s = .ok t) ↔ ∀ c ∈ s, c.isBasicEnd = false := by
  constructor
  · rintro ⟨t, ht⟩ c hc
    unfold Xml.writable at ht
    split at ht
    · next hall => exact (h c hc).1 (List.all_eq_true.1 hall c hc)
    · cases ht
  · intro hnone
    exact ⟨s, Xml.writable_eq_ok_iff.2 fun c hc => (h c hc).2 (hnone c hc)⟩

/-- If a way of cleaning neither adds nor removes the two, what it gives can be written exactly if the text has neither. -/
theorem exists_writable_iff_of_mem_iff {clean : Text → Text} (hsifted : IsSifted (clean s))
    (hmem : ∀ {c}, c.isBasicEnd = true → (c ∈ clean s ↔ c ∈ s)) :
    (∃ t, Xml.writable (clean s) = .ok t) ↔ ∀ c ∈ s, c.isBasicEnd = false := by
  rw [hsifted.exists_writable_iff]
  constructor
  · intro h c hc
    exact Bool.eq_false_iff.2 fun hend => by simp [h c ((hmem hend).2 hc)] at hend
  · intro h c hc
    exact Bool.eq_false_iff.2 fun hend => by simp [h c ((hmem hend).1 hc)] at hend

end Text

end EquationExport
