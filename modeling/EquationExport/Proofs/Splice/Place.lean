import EquationExport.Proofs.Splice.Run
import EquationExport.Proofs.Splice.Token

/-!
# Putting an equation in its place

A document is read as what stands before a run, the run, and what stands behind it. If a token is in the run and
not before it, splicing the token's equation replaces the run and leaves the rest as it is.
-/

namespace EquationExport.Splice

open EquationExport.Text

/-! ### Runs -/

/-- A run: it opens at the front, no other run opens inside, and its first end is the end of the text. -/
structure IsRun (run : Text) : Prop where
  opens : OpensRunAt run 0
  alone : ∀ i, OpensRunAt run i → i = 0
  closes : FirstAt run (run.length - 6) "</w:r>"

theorem openings_ne_nil : ("<w:r " : Text) ≠ [] ∧ ("<w:r>" : Text) ≠ [] := by decide

theorem OpensRunAt.add_five_le {s : Text} {i : Nat} (h : OpensRunAt s i) : i + 5 ≤ s.length := by
  rcases h with h | h
  · exact h.add_length_le openings_ne_nil.1
  · exact h.add_length_le openings_ne_nil.2

instance (s : Text) (i : Nat) : Decidable (OpensRunAt s i) :=
  inferInstanceAs (Decidable (_ ∨ _))

instance (s : Text) (i : Nat) (needle : Text) : Decidable (FirstAt s i needle) :=
  inferInstanceAs (Decidable (_ ∧ ∀ j < i, _))

theorem isRun_iff {run : Text} :
    IsRun run ↔ OpensRunAt run 0 ∧ (∀ i < run.length, OpensRunAt run i → i = 0) ∧
      FirstAt run (run.length - 6) "</w:r>" := by
  constructor
  · exact fun h => ⟨h.opens, fun i _ => h.alone i, h.closes⟩
  · exact fun ⟨h0, hi, hc⟩ => ⟨h0, fun i h => hi i (by have := h.add_five_le; omega) h, hc⟩

instance (run : Text) : Decidable (IsRun run) := decidable_of_iff' _ isRun_iff

namespace IsRun

variable {run : Text}

/-- The end of a run is preceded by the rest of it. -/
theorem length_eq (h : IsRun run) : (run.length - 6) + 6 = run.length := by
  have hle : run.length - 6 + 6 ≤ run.length := h.closes.1.add_length_le (by decide)
  omega

theorem exists_eq_append (h : IsRun run) : ∃ body, run = body ++ ("</w:r>" : Text) ∧ body.length = run.length - 6 := by
  have hlength := h.length_eq
  obtain ⟨body, b, hrun, hbody⟩ := (standsAt_iff (Nat.sub_le _ _)).1 h.closes.1
  have hsum := congrArg List.length hrun
  rw [List.length_append, List.length_append, show ("</w:r>" : Text).length = 6 from by decide] at hsum
  obtain rfl : b = [] := List.length_eq_zero_iff.1 (by omega)
  exact ⟨body, by rwa [List.append_nil] at hrun, hbody⟩

theorem closes_append (h : IsRun run) (after : Text) : FirstAt (run ++ after) (run.length - 6) "</w:r>" := by
  have hlen := h.length_eq
  have hend : ∀ j ≤ run.length - 6, j + ("</w:r>" : Text).length ≤ run.length := by
    intro j hj
    show j + 6 ≤ run.length
    omega
  exact ⟨(standsAt_append_left (hend _ (Nat.le_refl _))).2 h.closes.1,
    fun j hj hs => h.closes.2 j hj ((standsAt_append_left (hend j hj.le)).1 hs)⟩

theorem opens_append (h : IsRun run) (after : Text) : OpensRunAt (run ++ after) 0 :=
  h.opens.imp (fun hs => standsAt_zero.2 ((standsAt_zero.1 hs).trans (List.prefix_append _ _)))
    fun hs => standsAt_zero.2 ((standsAt_zero.1 hs).trans (List.prefix_append _ _))

/-- A run that opens and is still inside is the run itself. -/
theorem alone_append (h : IsRun run) {after : Text} {i : Nat} (ho : OpensRunAt (run ++ after) i)
    (hi : i + 5 ≤ run.length) : i = 0 := by
  have hplain : i + ("<w:r>" : Text).length ≤ run.length := hi
  have hspace : i + ("<w:r " : Text).length ≤ run.length := hi
  exact h.alone i (ho.imp (standsAt_append_left hspace).1 (standsAt_append_left hplain).1)

/-- The first characters of a run. -/
theorem getElem?_opening (h : IsRun run) {k : Nat} (hk : k < 4) : run[k]? = ("<w:r" : Text)[k]? := by
  have hopen : StandsAt run 0 "<w:r" := by
    rcases h.opens with h | h
    · exact standsAt_zero.2 (List.IsPrefix.trans (by decide) (standsAt_zero.1 h))
    · exact standsAt_zero.2 (List.IsPrefix.trans (by decide) (standsAt_zero.1 h))
  simpa using hopen.getElem? (k := k) hk

/-- The last characters of a run. -/
theorem getElem?_closing (h : IsRun run) {k : Nat} (hk : k < 6) : run[run.length - 6 + k]? = ("</w:r>" : Text)[k]? :=
  h.closes.1.getElem? hk

theorem exists_cons (h : IsRun run) : ∃ rest, run = CodePoint.ofChar '<' :: rest := by
  cases run with
  | nil => exact absurd h.length_eq (by simp)
  | cons c rest =>
    have hc := h.getElem?_opening (k := 0) (by omega)
    exact ⟨rest, by rw [Option.some.inj hc]; rfl⟩

/-- A run that opens behind the opening of another one does not open inside it. -/
theorem opens_append_cases (h : IsRun run) {after : Text} {i : Nat} (ho : OpensRunAt (run ++ after) i) :
    i = 0 ∨ run.length ≤ i := by
  by_contra hcon
  obtain ⟨hpos, hlt⟩ := not_or.1 hcon
  have hlength := h.length_eq
  rcases Nat.lt_or_ge run.length (i + 5) with hshort | hlong
  · -- it would open in the end of the run, behind the angle bracket
    have hopening : (run ++ after)[i]? = some (CodePoint.ofChar '<') := by
      rcases ho with ho | ho
      · exact ho.getElem? (k := 0) (by decide)
      · exact ho.getElem? (k := 0) (by decide)
    have hinside : (run ++ after)[i]? = run[i]? := List.getElem?_append_left (by omega)
    obtain ⟨k, hk⟩ : ∃ k, i - (run.length - 6) = k + 1 := ⟨i - (run.length - 6) - 1, by omega⟩
    have hchar := h.getElem?_closing (k := k + 1) (by omega)
    rw [show run.length - 6 + (k + 1) = i by omega, ← hinside, hopening] at hchar
    exact absurd (List.mem_of_getElem? (l := ("/w:r>" : Text)) hchar.symm) (by decide)
  · exact hpos (h.alone_append ho hlong)

/-- A token that is in a run stands between the opening and the end. -/
theorem standsAt_token (h : IsRun run) {t : Text} (ht : IsToken t) {k : Nat} (hk : StandsAt run k t) :
    4 ≤ k ∧ k ≤ run.length - 6 := by
  have hfirst : run[k]? = some (CodePoint.ofChar '_') := by
    have hlength := List.length_pos_of_ne_nil ht.ne_nil
    simpa [ht.getElem?_zero] using hk.getElem? (k := 0) hlength
  constructor
  · by_contra hlt
    rw [h.getElem?_opening (by omega)] at hfirst
    exact absurd (List.mem_of_getElem? hfirst) (by decide)
  · by_contra hgt
    have hlength := List.length_pos_of_ne_nil ht.ne_nil
    have hend := hk.add_length_le ht.ne_nil
    have hinside := h.length_eq
    have hclosing := h.getElem?_closing (k := k - (run.length - 6)) (by omega)
    rw [Nat.add_sub_cancel' (by omega), hfirst] at hclosing
    exact absurd (List.mem_of_getElem? hclosing.symm) (by decide)

end IsRun

/-! ### The step -/

/-- Where a token first stands: in a run, if not before it. -/
theorem firstAt_run {before run t : Text} (after : Text) (hrun : IsRun run) (ht : IsToken t) (hin : t <:+: run)
    (hbefore : ¬ t <:+: before) :
    ∃ k, 4 ≤ k ∧ k ≤ run.length - 6 ∧ FirstAt (before ++ (run ++ after)) (before.length + k) t := by
  obtain ⟨k, hle, hk⟩ := exists_firstAt hin
  obtain ⟨hopening, hclosing⟩ := hrun.standsAt_token ht hk.1
  have hend := hk.1.add_length_le ht.ne_nil
  refine ⟨k, hopening, hclosing, ?_, fun j hj hs => ?_⟩
  · rw [standsAt_append_right (by omega), Nat.add_sub_cancel_left, standsAt_append_left hend]
    exact hk.1
  · -- an occurrence further left is before the run, or in it
    obtain ⟨rest, hcons⟩ := hrun.exists_cons
    rw [hcons, List.cons_append] at hs
    rcases hs.before_or_after (ht.not_mem (by decide)) with hb | ha
    · exact hbefore (infix_iff_exists_standsAt.2 ⟨j, (standsAt_append_left hb).1 hs⟩)
    · rw [standsAt_append_right (by omega), ← List.cons_append, ← hcons, standsAt_append_left (by omega)] at hs
      exact hk.2 _ (by omega) hs

/-- What is cut out for a token that is in a run and not before it. -/
theorem cut_run {before run t : Text} (after : Text) (hrun : IsRun run) (ht : IsToken t) (hin : t <:+: run)
    (hbefore : ¬ t <:+: before) :
    Cut (before ++ (run ++ after)) t before.length (before.length + run.length) := by
  obtain ⟨k, hopening, hclosing, hfirst⟩ := firstAt_run after hrun ht hin hbefore
  have hlength := hrun.length_eq
  refine ⟨_, hfirst, ?_, by omega, fun i hi hlimit => ?_, run.length - 6, ?_, by omega, by omega⟩
  · exact (hrun.opens_append after).imp (fun h => (standsAt_append_right (Nat.le_refl _)).2 (by simpa using h))
      fun h => (standsAt_append_right (Nat.le_refl _)).2 (by simpa using h)
  · by_contra hlt
    have hinside : OpensRunAt (run ++ after) (i - before.length) :=
      hi.imp (standsAt_append_right (by omega)).1 (standsAt_append_right (by omega)).1
    have hfront := hrun.alone_append hinside (by omega)
    omega
  · simpa using hrun.closes_append after

/-- Splicing an equation whose token is in a run and not before it replaces the run. -/
theorem spliceOne_append {before run after : Text} {item : Replacement} (hrun : IsRun run)
    (ht : IsToken item.token) (hin : item.token <:+: run) (hbefore : ¬ item.token <:+: before) :
    spliceOne (before ++ (run ++ after)) item = .ok (before ++ markup item ++ after) := by
  have hcut := cut_run after hrun ht hin hbefore
  rcases spliceOne_cases (before ++ (run ++ after)) item with ⟨-, hnone⟩ | ⟨start, stop, hcut', heq⟩
  · exact absurd hcut (hnone _ _)
  · obtain ⟨rfl, rfl⟩ := hcut.unique hcut'
    rw [heq]
    simp [List.drop_append]

end EquationExport.Splice

/-!
### The markup that is spliced in

Wrapping puts an element around the cleaned markup, or two. Tokens are not made of the characters of these
elements, so a token that is read in the markup of an equation comes from what the equation was registered with.
-/

namespace EquationExport.Splice

open EquationExport.Text

/-- A token is nowhere in a text without an underscore. -/
theorem not_infix_of_isToken {t s : Text} (ht : IsToken t) (hs : CodePoint.ofChar '_' ∉ s) : ¬ t <:+: s :=
  fun h => hs (h.subset (List.mem_of_getElem? ht.getElem?_zero))

/-- A token inside an element is in its content. -/
theorem infix_of_infix_element {t content : Text} (opening closing : Text) (ht : IsToken t)
    (ho : CodePoint.ofChar '_' ∉ opening) (hc : CodePoint.ofChar '_' ∉ closing)
    (h : t <:+: opening ++ CodePoint.ofChar '>' :: (content ++ CodePoint.ofChar '<' :: closing)) :
    t <:+: content := by
  rcases (infix_append_cons_iff (ht.not_mem (by decide))).1 h with h | h
  · exact absurd h (not_infix_of_isToken ht ho)
  · exact ((infix_append_cons_iff (ht.not_mem (by decide))).1 h).resolve_right (not_infix_of_isToken ht hc)

/-- The two layers of wrapped markup, each of which is put around it unless it is there. -/
theorem wrapOmml_cases (omml : Text) (display : Bool) :
    ∃ body, ((("<m:oMath" : Text) <+: omml.trim ∧ body = omml.trim) ∨
        body = ("<m:oMath>" : Text) ++ omml.trim ++ ("</m:oMath>" : Text)) ∧
      (wrapOmml omml display = body ∨
        wrapOmml omml display = ("<m:oMathPara>" : Text) ++ body ++ ("</m:oMathPara>" : Text)) := by
  refine ⟨if omml.trim.startsWith "<m:oMath" then omml.trim
    else ("<m:oMath>" : Text) ++ omml.trim ++ ("</m:oMath>" : Text), ?_, ?_⟩
  · by_cases h : omml.trim.startsWith "<m:oMath"
    · exact .inl ⟨dropPrefix?_isSome_iff.1 h, if_pos h⟩
    · exact .inr (if_neg h)
  · unfold wrapOmml
    simp only
    generalize (if omml.trim.startsWith "<m:oMath" then omml.trim
      else ("<m:oMath>" : Text) ++ omml.trim ++ ("</m:oMath>" : Text)) = body
    by_cases h : display && !body.startsWith "<m:oMathPara"
    · exact .inr (if_pos h)
    · exact .inl (if_neg h)

/-- A token in the markup of an equation is in what the equation was registered with, once that is cleaned. -/
theorem infix_of_infix_markup {t : Text} {item : Replacement} (ht : IsToken t) (h : t <:+: markup item) :
    t <:+: sanitizeOmml item.omml := by
  obtain ⟨body, hbody, hmarkup⟩ := wrapOmml_cases (sanitizeOmml item.omml) item.display
  have hinner : t <:+: body := by
    rcases hmarkup with hmarkup | hmarkup
    · exact hmarkup ▸ h
    · rw [markup, hmarkup, List.append_assoc] at h
      exact infix_of_infix_element "<m:oMathPara" "/m:oMathPara>" ht (by decide) (by decide) h
  refine List.IsInfix.trans ?_ (trim_isInfix _)
  rcases hbody with ⟨-, rfl⟩ | rfl
  · exact hinner
  · rw [List.append_assoc] at hinner
    exact infix_of_infix_element "<m:oMath" "/m:oMath>" ht (by decide) (by decide) hinner

/-- Markup begins with the tag of an equation. -/
theorem exists_markup_eq (item : Replacement) : ∃ rest, markup item = ("<m:oMath" : Text) ++ rest := by
  obtain ⟨body, hbody, hmarkup⟩ := wrapOmml_cases (sanitizeOmml item.omml) item.display
  rcases hmarkup with hmarkup | hmarkup
  · rcases hbody with ⟨⟨rest, hrest⟩, rfl⟩ | rfl
    · exact ⟨rest, hmarkup.trans hrest.symm⟩
    · exact ⟨_, hmarkup⟩
  · exact ⟨_, hmarkup⟩

theorem exists_markup_eq_cons (item : Replacement) : ∃ rest, markup item = CodePoint.ofChar '<' :: rest := by
  obtain ⟨rest, hrest⟩ := exists_markup_eq item
  exact ⟨_, hrest⟩

end EquationExport.Splice
