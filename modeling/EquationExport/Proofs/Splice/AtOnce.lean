import EquationExport.Proofs.Splice.DocumentTag
import EquationExport.Proofs.Splice.Order

/-!
# All equations at once

The equations that a registry holds can be spliced into a document in any order, and each order yields what the
single pass yields. Declaring the namespace of equations comes first; it changes the document tag only, which
ends before the runs begin, so the tokens stay apart.
-/

namespace EquationExport.Splice

open EquationExport.Text

/-! ### Documents whose tag is changed -/

section Tag

variable {tag rest : Text} {c : CodePoint}

theorem once_behind {t : Text} (hc : c ∉ t) (htag : ¬ t <:+: tag) :
    (∃! i, StandsAt (tag ++ c :: rest) i t) ↔ ∃! k, StandsAt rest k t := by
  constructor
  · rintro ⟨i, hi, hunique⟩
    obtain ⟨k, rfl, hk⟩ := (standsAt_behind hc htag).1 hi
    refine ⟨k, hk, fun j hj => ?_⟩
    have heq := hunique _ ((standsAt_behind hc htag).2 ⟨j, rfl, hj⟩)
    omega
  · rintro ⟨k, hk, hunique⟩
    refine ⟨_, (standsAt_behind hc htag).2 ⟨k, rfl, hk⟩, fun i hi => ?_⟩
    obtain ⟨j, rfl, hj⟩ := (standsAt_behind hc htag).1 hi
    rw [hunique j hj]

/-- A run stands behind a tag in which no run opens. -/
theorem exists_before_eq {before run after : Text} (hrun : IsRun run) (htag : ¬ ("<w:r" : Text) <:+: tag)
    (h : tag ++ CodePoint.ofChar '>' :: rest = before ++ (run ++ after)) :
    ∃ b, before = tag ++ CodePoint.ofChar '>' :: b ∧ rest = b ++ (run ++ after) := by
  have hopen : StandsAt (tag ++ CodePoint.ofChar '>' :: rest) before.length "<w:r" := by
    rw [h, standsAt_append_right (Nat.le_refl _), Nat.sub_self]
    exact (hrun.opens_append after).elim
      (fun ho => standsAt_zero.2 (List.IsPrefix.trans (by decide) (standsAt_zero.1 ho)))
      fun ho => standsAt_zero.2 (List.IsPrefix.trans (by decide) (standsAt_zero.1 ho))
  obtain ⟨k, hk, -⟩ := (standsAt_behind (by decide) htag).1 hopen
  have hfront : tag ++ [CodePoint.ofChar '>'] <+: before := by
    have hwhole : tag ++ [CodePoint.ofChar '>'] <+: tag ++ CodePoint.ofChar '>' :: rest := ⟨rest, by simp⟩
    refine List.prefix_of_prefix_length_le hwhole (h ▸ List.prefix_append _ _) ?_
    simp only [List.length_append, List.length_singleton]
    omega
  obtain ⟨b, rfl⟩ := hfront
  exact ⟨b, by simp, by simpa using h⟩

variable {items : List Replacement} {added : Text}

/-- Tokens stay apart if something without a token is added to the tag in front of the runs. -/
theorem Separated.add (h : Separated (tag ++ CodePoint.ofChar '>' :: rest) items)
    (htokens : ∀ item ∈ items, IsToken item.token) (htag : ¬ ("<w:r" : Text) <:+: tag)
    (hadded : ∀ t, IsToken t → t <:+: tag ++ added → t <:+: tag) :
    Separated ((tag ++ added) ++ CodePoint.ofChar '>' :: rest) items := by
  have hseated : ∀ item ∈ items, ∃ b run after, rest = b ++ (run ++ after) ∧ Seat items item run := by
    intro item hitem
    obtain ⟨before, run, after, hdoc, hseat⟩ := h.seated item hitem
    obtain ⟨b, -, hb⟩ := exists_before_eq hseat.isRun htag hdoc
    exact ⟨b, run, after, hb, hseat⟩
  refine ⟨fun item hitem => ?_, fun item hitem => ?_, h.clean⟩
  · have ht := htokens item hitem
    have hmark := ht.not_mem (c := CodePoint.ofChar '>') (by decide)
    have hfront : ¬ item.token <:+: tag := by
      obtain ⟨b, run, after, hb, hseat⟩ := hseated item hitem
      intro hin
      refine not_infix_of_once (h.once item hitem) ht.ne_nil hin (hseat.token.trans ?_)
      rw [hb]
      exact (List.infix_append' b run after).trans (List.suffix_cons _ _).isInfix
    rw [once_behind hmark fun hin => hfront (hadded _ ht hin), ← once_behind hmark hfront]
    exact h.once item hitem
  · obtain ⟨b, run, after, hb, hseat⟩ := hseated item hitem
    exact ⟨(tag ++ added) ++ CodePoint.ofChar '>' :: b, run, after, by simp [hb], hseat⟩

theorem SeamsClear.add (h : SeamsClear (tag ++ CodePoint.ofChar '>' :: rest) items)
    (hadded : ¬ ("<w:r" : Text) <:+: tag ++ added) :
    SeamsClear ((tag ++ added) ++ CodePoint.ofChar '>' :: rest) items := by
  intro item hitem before run after hdoc hseat
  obtain ⟨b, -, hb⟩ := exists_before_eq hseat.isRun hadded hdoc
  exact h item hitem (tag ++ CodePoint.ofChar '>' :: b) run after (by simp [hb]) hseat

end Tag

theorem Separated.declare {document : Text} {items : List Replacement} (h : Separated document items)
    (hseams : SeamsClear document items) (htag : TagComesFirst document)
    (htokens : ∀ item ∈ items, IsToken item.token) :
    Separated (declareMathNamespace document) items ∧ SeamsClear (declareMathNamespace document) items := by
  rcases declareMathNamespace_cases htag with heq | ⟨tag, rest, rfl, hrun, heq⟩
  · rw [heq]
    exact ⟨h, hseams⟩
  · rw [heq]
    refine ⟨h.add htokens hrun fun t ht hin => ?_, hseams.add fun hin => hrun ?_⟩
    · exact infix_of_infix_add (ht.not_mem (by decide)) (List.mem_of_getElem? ht.getElem?_zero)
        underscore_not_mem_mathDeclaration hin
    · exact infix_of_infix_add (by decide) (c := CodePoint.ofChar '<') (by decide) angle_not_mem_mathDeclaration hin

/-! ### In any order -/

/--
The equations of a registry, spliced in any order into a document that keeps their tokens apart, yield what a
single pass over the document yields.
-/
theorem spliceAll_eq_spliceAtOnce {document : Text} {calls : List (Payload × Payload)} {items : List Replacement}
    (hperm : items.Perm (Registry.submitAll calls).replacements) (hne : items ≠ []) (htag : TagComesFirst document)
    (hsep : Separated document (Registry.submitAll calls).replacements)
    (hseams : SeamsClear document (Registry.submitAll calls).replacements) :
    spliceAll document items = .ok (spliceAtOnce document (Registry.submitAll calls).replacements) := by
  have hnumbered := Registry.numbered_submitAll calls
  have htokens : ∀ item ∈ (Registry.submitAll calls).replacements, IsToken item.token := fun _ => hnumbered.isToken
  obtain ⟨hsep, hseams⟩ := hsep.declare hseams htag htokens
  obtain ⟨parts, hparts⟩ := exists_divided (Registry.submitAll calls).replacements (declareMathNamespace document)
  have hdistinct : items.Nodup := hperm.nodup_iff.2 hnumbered.nodup.of_map
  have hfold := foldlM_spliceOne hparts hsep htokens hnumbered.nodup hseams hperm.subset hdistinct
    fun _ _ => List.not_mem_nil
  rw [hparts.written_eq, List.append_nil] at hfold
  rw [spliceAll, if_neg (by simpa using hne), hfold, spliceAtOnce, Text.substitute, hparts.substituteFrom_eq]
  exact congrArg _ (written_congr fun _ _ _ => hperm.mem_iff)

/-- Two runs in a row, the second of which is replaced first. -/
theorem spliceAll_two_runs :
    spliceAll "<w:document><w:r>__MATH_000001__</w:r><w:r>__MATH_000002__</w:r></w:document>"
        [⟨"__MATH_000002__", "<m:oMath/>", false⟩, ⟨"__MATH_000001__", "<m:r/>", true⟩] =
      .ok (spliceAtOnce "<w:document><w:r>__MATH_000001__</w:r><w:r>__MATH_000002__</w:r></w:document>"
        [⟨"__MATH_000001__", "<m:r/>", true⟩, ⟨"__MATH_000002__", "<m:oMath/>", false⟩]) := by
  have hcalls : (Registry.submitAll [(.text "<m:r/>", .boolean true), (.text "<m:oMath/>", .boolean false)]).replacements =
      [⟨"__MATH_000001__", "<m:r/>", true⟩, ⟨"__MATH_000002__", "<m:oMath/>", false⟩] := by decide +kernel
  have htokens : ∀ item ∈ (Registry.submitAll
      [(.text "<m:r/>", .boolean true), (.text "<m:oMath/>", .boolean false)]).replacements, IsToken item.token :=
    fun _ => (Registry.numbered_submitAll _).isToken
  rw [← hcalls]
  refine spliceAll_eq_spliceAtOnce (by rw [hcalls]; decide) (by decide) ?_ ⟨?_, ?_, ?_⟩ ?_
  · exact tagComesFirst_of_breakAt? [] [] "<w:r>__MATH_000001__</w:r><w:r>__MATH_000002__</w:r></w:document>"
      (by decide +kernel) (by decide +kernel)
  · rw [hcalls]
    refine List.forall_mem_cons.2 ⟨?_, List.forall_mem_singleton.2 ?_⟩
    · exact existsUnique_standsAt (i := 17) (by decide) (by decide +kernel) (by decide +kernel)
    · exact existsUnique_standsAt (i := 43) (by decide) (by decide +kernel) (by decide +kernel)
  · rw [hcalls]
    refine List.forall_mem_cons.2 ⟨?_, List.forall_mem_singleton.2 ?_⟩
    · exact ⟨"<w:document>", "<w:r>__MATH_000001__</w:r>", "<w:r>__MATH_000002__</w:r></w:document>", by decide +kernel,
        by decide +kernel, by decide +kernel, by decide +kernel⟩
    · exact ⟨"<w:document><w:r>__MATH_000001__</w:r>", "<w:r>__MATH_000002__</w:r>", "</w:document>", by decide +kernel,
        by decide +kernel, by decide +kernel, by decide +kernel⟩
  · rw [hcalls]
    decide +kernel
  · refine seamsClear_of_markup_closed htokens ?_
    rw [hcalls]
    decide +kernel

/--
A seam that is not clear: the markup of the first equation and the text behind its run are read as the second
token, so the run of the second equation is not replaced.
-/
theorem spliceAll_ne_spliceAtOnce :
    let document : Text := "<w:document><w:r>__MATH_000001__</w:r>2__<w:r>__MATH_000002__</w:r></w:document>"
    let registry := Registry.submitAll
      [(.text "<m:oMath/>__MATH_00000", .boolean false), (.text "<m:oMath/>", .boolean false)]
    TagComesFirst document ∧ Separated document registry.replacements ∧
      spliceAll document registry.replacements ≠ .ok (spliceAtOnce document registry.replacements) := by
  intro document registry
  have hitems : registry.replacements = [⟨"__MATH_000001__", "<m:oMath/>__MATH_00000", false⟩,
      ⟨"__MATH_000002__", "<m:oMath/>", false⟩] := by decide +kernel
  rw [hitems]
  refine ⟨?_, ⟨?_, ?_, by decide +kernel⟩, by decide +kernel⟩
  · exact tagComesFirst_of_breakAt? [] [] "<w:r>__MATH_000001__</w:r>2__<w:r>__MATH_000002__</w:r></w:document>"
      (by decide +kernel)
      (by decide +kernel)
  · refine List.forall_mem_cons.2 ⟨?_, List.forall_mem_singleton.2 ?_⟩
    · exact existsUnique_standsAt (i := 17) (by decide) (by decide +kernel) (by decide +kernel)
    · exact existsUnique_standsAt (i := 46) (by decide) (by decide +kernel) (by decide +kernel)
  · refine List.forall_mem_cons.2 ⟨?_, List.forall_mem_singleton.2 ?_⟩
    · exact ⟨"<w:document>", "<w:r>__MATH_000001__</w:r>", "2__<w:r>__MATH_000002__</w:r></w:document>",
        by decide +kernel, by decide +kernel, by decide +kernel, by decide +kernel⟩
    · exact ⟨"<w:document><w:r>__MATH_000001__</w:r>2__", "<w:r>__MATH_000002__</w:r>", "</w:document>",
        by decide +kernel, by decide +kernel, by decide +kernel, by decide +kernel⟩

end EquationExport.Splice
