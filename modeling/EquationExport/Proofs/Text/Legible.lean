import EquationExport.Omml.Repair.Norm
import EquationExport.Text.Clean

/-!
# What can be read of a text

A reader sees no white space, no characters without width and no control characters, and takes a subscript
digit for the digit. Trimming and cleaning leave what can be read of a text as it is.
-/

namespace EquationExport

open Omml.Repair

namespace CodePoint

/-- The code point leaves a mark on the page. -/
def isLegible (c : CodePoint) : Bool := !(c.isSpace || c.isZeroWidth || c.isControl)

theorem isLegible_of_isScriptDigit {c : CodePoint} (h : isScriptDigit c = true) : c.isLegible = true := by
  simp only [isScriptDigit, isAsciiDigit, inRange, Bool.or_eq_true, Bool.and_eq_true, decide_eq_true_eq] at h
  simp only [isLegible, isSpace, isZeroWidth, isControl, inRange, Bool.not_eq_true', Bool.or_eq_false_iff,
    Bool.and_eq_false_iff, decide_eq_false_iff_not, beq_eq_false_iff_ne]
  omega

theorem isScriptDigit_plainDigit {c : CodePoint} (h : isScriptDigit c = true) :
    isScriptDigit (plainDigit c) = true ∧ plainDigit (plainDigit c) = plainDigit c := by
  simp only [isScriptDigit, isAsciiDigit, inRange, Bool.or_eq_true, Bool.and_eq_true, decide_eq_true_eq] at h
  by_cases hsub : c.inRange 0x2080 0x2089 = true
  · simp only [inRange, Bool.and_eq_true, decide_eq_true_eq] at hsub
    have hval : (plainDigit c).val = c.val - 0x2080 + 0x30 := by
      rw [plainDigit, if_pos (by simp [inRange, hsub]), val_ofNat (by omega)]
    have hnot : (plainDigit c).inRange 0x2080 0x2089 = false := by
      simp only [inRange, hval, Bool.and_eq_false_iff, decide_eq_false_iff_not]
      omega
    refine ⟨?_, ?_⟩
    · simp only [isScriptDigit, isAsciiDigit, inRange, hval, Bool.or_eq_true, Bool.and_eq_true, decide_eq_true_eq]
      omega
    · rw [plainDigit.eq_1 (plainDigit c), hnot]
      rfl
  · have hc : plainDigit c = c := by rw [plainDigit, if_neg hsub]
    rw [hc]
    refine ⟨?_, hc⟩
    simpa only [isScriptDigit, isAsciiDigit, inRange, Bool.or_eq_true, Bool.and_eq_true, decide_eq_true_eq] using h

end CodePoint

namespace Text

/-- What can be read of a text. -/
def legible (s : Text) : Text := (s.filter (·.isLegible)).map plainDigit

@[simp] theorem legible_nil : legible [] = [] := rfl

@[simp] theorem legible_append (s t : Text) : legible (s ++ t) = legible s ++ legible t := by simp [legible]

theorem legible_cons (c : CodePoint) (s : Text) : legible (c :: s) = legible [c] ++ legible s :=
  legible_append [c] s

theorem legible_filter {p : CodePoint → Bool} (h : ∀ c : CodePoint, c.isLegible = true → p c = true) (s : Text) :
    legible (s.filter p) = legible s := by
  have hfilter : (fun c => p c && c.isLegible) = fun c : CodePoint => c.isLegible := by
    funext c
    cases hc : c.isLegible with
    | false => simp
    | true => simp [h c hc]
  simp [legible, List.filter_filter, Bool.and_comm _ (p _), hfilter]

/-! ### Trimming -/

theorem legible_dropWhile (s : Text) : legible (s.dropWhile (·.isSpace)) = legible s := by
  induction s with
  | nil => rfl
  | cons c s ih =>
    by_cases hc : c.isSpace = true
    · have hnot : legible [c] = [] := by simp [legible, CodePoint.isLegible, hc]
      rw [List.dropWhile_cons_of_pos hc, ih, legible_cons, hnot, List.nil_append]
    · rw [List.dropWhile_cons_of_neg hc]

theorem legible_reverse (s : Text) : legible s.reverse = (legible s).reverse := by simp [legible]

@[simp] theorem legible_trim (s : Text) : legible s.trim = legible s := by
  unfold trim trimEnd trimStart
  rw [legible_reverse, legible_dropWhile, legible_reverse, List.reverse_reverse, legible_dropWhile]

/-! ### Digits -/

/-- Subscript digits and plain ones are read alike. -/
theorem legible_map_plainDigit {digits : Text} (h : ∀ c ∈ digits, isScriptDigit c = true) :
    legible (digits.map plainDigit) = legible digits := by
  induction digits with
  | nil => rfl
  | cons c digits ih =>
    have hc := h c (by simp)
    obtain ⟨hplain, htwice⟩ := CodePoint.isScriptDigit_plainDigit hc
    have hone : legible [plainDigit c] = legible [c] := by
      simp [legible, CodePoint.isLegible_of_isScriptDigit hc, CodePoint.isLegible_of_isScriptDigit hplain, htwice]
    rw [List.map_cons, legible_cons, legible_cons c, hone, ih fun d hd => h d (by simp [hd])]

/-! ### Cleaning -/

theorem hasSurrogate_eq_false_iff {s : Text} : s.hasSurrogate = false ↔ ∀ c ∈ s, c.isSurrogate = false := by
  simp [hasSurrogate]

theorem joinPairs?_of_no_surrogate {s : Text} (h : s.hasSurrogate = false) : s.joinPairs? = some s := by
  fun_induction joinPairs? s with
  | case1 => rfl
  | case2 c hc => simp [hasSurrogate, hc] at h
  | case3 c hc => rfl
  | case4 c d s hpair ih =>
    obtain ⟨hhigh, -⟩ := Bool.and_eq_true_iff.1 hpair
    have hc : c.isSurrogate = true := by
      simp only [CodePoint.isHighSurrogate, CodePoint.inRange, Bool.and_eq_true, decide_eq_true_eq] at hhigh
      simp only [CodePoint.isSurrogate, CodePoint.inRange, Bool.and_eq_true, decide_eq_true_eq]
      omega
    simp [hasSurrogate, hc] at h
  | case5 c d s hpair hc => simp [hasSurrogate, hc] at h
  | case6 c d s hpair hc ih =>
    rw [ih (by simp only [hasSurrogate, List.any_cons, Bool.or_eq_false_iff] at h ⊢; exact h.2), Option.map_some]

theorem stripUnpairedSurrogates_of_no_surrogate {s : Text} (h : s.hasSurrogate = false) :
    s.stripUnpairedSurrogates = s := by
  rw [stripUnpairedSurrogates, joinPairs?_of_no_surrogate h, Option.getD_some]

theorem hasSurrogate_filter {s : Text} (p : CodePoint → Bool) (h : s.hasSurrogate = false) :
    hasSurrogate (s.filter p) = false := by
  simp only [hasSurrogate, List.any_eq_false, List.mem_filter] at h ⊢
  exact fun c hc => h c hc.1

theorem hasSurrogate_sanitize {s : Text} (h : s.hasSurrogate = false) : s.sanitize.hasSurrogate = false := by
  rw [sanitize, stripZeroWidth, stripUnpairedSurrogates_of_no_surrogate (hasSurrogate_filter _ h)]
  exact hasSurrogate_filter _ (hasSurrogate_filter _ h)

theorem hasSurrogate_plainSpaces {s : Text} (h : s.hasSurrogate = false) : s.plainSpaces.hasSurrogate = false := by
  simp only [hasSurrogate, plainSpaces, List.any_eq_false, List.mem_map, forall_exists_index, and_imp] at h ⊢
  rintro _ c hc rfl
  split
  · decide
  · exact h c hc

theorem legible_sanitize {s : Text} (h : s.hasSurrogate = false) : legible s.sanitize = legible s := by
  rw [sanitize, stripZeroWidth, stripUnpairedSurrogates_of_no_surrogate (hasSurrogate_filter _ h)]
  rw [legible_filter, legible_filter]
  · intro c hc
    simp only [CodePoint.isLegible, Bool.not_eq_true', Bool.or_eq_false_iff] at hc
    simp [hc.1.2]
  · intro c hc
    simp only [CodePoint.isLegible, Bool.not_eq_true', Bool.or_eq_false_iff] at hc
    simp [hc.2]

theorem legible_plainSpaces (s : Text) : legible s.plainSpaces = legible s := by
  induction s with
  | nil => rfl
  | cons c s ih =>
    have hone : legible [if c.isTypographicSpace then ' ' else c] = legible [c] := by
      split
      · next hspace =>
        have hc : c.isSpace = true := by
          simp only [CodePoint.isTypographicSpace, CodePoint.inRange, Bool.or_eq_true, Bool.and_eq_true,
            beq_iff_eq, decide_eq_true_eq] at hspace
          simp only [CodePoint.isSpace, CodePoint.inRange, Bool.or_eq_true, Bool.and_eq_true, beq_iff_eq,
            decide_eq_true_eq]
          omega
        have hnone : legible [c] = [] := by simp [legible, CodePoint.isLegible, hc]
        have hplain : legible [(' ' : CodePoint)] = [] := by decide
        rw [hnone, hplain]
      · rfl
    rw [plainSpaces, List.map_cons, legible_cons, hone, legible_cons c s]
    exact congrArg _ ih

end Text

end EquationExport
