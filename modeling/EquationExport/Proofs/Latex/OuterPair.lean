import EquationExport.Proofs.Latex.Fusion

/-!
# The pair of delimiters that is taken off

A pair of math delimiters is looked for at the two ends of a source, without a look at what stands between. In
`$a$ and $b$` the first and the last dollar sign are taken off although they belong to different formulas, and in
`$a\$` the last one is an escaped dollar sign. The pair that is taken off belongs together exactly if the source is
one formula: the closing delimiter at its end is not escaped, and stands nowhere else behind the opening one unless it
is escaped. The pair around one formula is always the one that is found, although a dollar sign also stands at the ends
of a source between two.
-/

namespace EquationExport.Latex

open Reached

variable {s t opening closing inner : Text} {pair : Text × Text}

/-- The pair of math delimiters that is taken off a source, and what stands between. -/
def outerPair? (s : Text) : Option ((Text × Text) × Text) :=
  mathDelimiters.findSome? fun pair => (between? pair.1 pair.2 s.trim).map (pair, ·)

/-- The closing delimiter behind `inner` is not escaped, and none stands in `inner` that is not escaped. -/
structure IsClosedBy (closing inner : Text) : Prop where
  unescaped : token.read inner ≠ backslash
  first : ∀ front rest, inner = front ++ (closing ++ rest) → token.read front = backslash

/-- The text is one formula between two delimiters. -/
structure IsFormula (pair : Text × Text) (inner t : Text) : Prop where
  mem : pair ∈ mathDelimiters
  eq : t = pair.1 ++ (inner ++ pair.2)
  isClosedBy : IsClosedBy pair.2 inner

/-! ### Between two delimiters -/

theorem between?_eq_some_iff : between? opening closing t = some inner ↔ t = opening ++ (inner ++ closing) := by
  constructor
  · exact eq_of_between?
  · rintro rfl
    have hends : opening.length + closing.length ≤ (opening ++ (inner ++ closing)).length ∧
        (opening ++ (inner ++ closing)).startsWith opening ∧ (opening ++ (inner ++ closing)).endsWith closing := by
      refine ⟨?_, startsWith_iff.2 (List.prefix_append _ _), endsWith_iff.2 ?_⟩
      · simp only [List.length_append]
        omega
      · exact (List.suffix_append _ _).trans (List.suffix_append _ _)
    have hcount : (opening ++ (inner ++ closing)).length - opening.length - closing.length = inner.length := by
      simp only [List.length_append]
      omega
    rw [between?, if_pos hends, hcount]
    simp

theorem between?_eq_none_iff : between? opening closing t = none ↔ ∀ inner, t ≠ opening ++ (inner ++ closing) := by
  rw [Option.eq_none_iff_forall_ne_some]
  exact forall_congr' fun inner => not_congr between?_eq_some_iff

/-- What stands between the pair is left, without white space around it. -/
theorem stripMathDelimiters_eq (s : Text) :
    stripMathDelimiters s = (outerPair? s).elim s.trim (·.2.trim) := by
  have hinner : (mathDelimiters.findSome? fun pair => between? pair.1 pair.2 s.trim) = (outerPair? s).map (·.2) := by
    rw [outerPair?, List.map_findSome?]
    exact congrArg (mathDelimiters.findSome? ·) (funext fun pair => by simp [Option.map_map, Function.comp_def])
  unfold stripMathDelimiters
  dsimp only
  split
  · next inner hfound =>
    obtain ⟨found, hpair, rfl⟩ := Option.map_eq_some_iff.1 (hinner.symm.trans hfound)
    rw [hpair]
    rfl
  · next hnone =>
    rw [Option.map_eq_none_iff.1 (hinner.symm.trans hnone)]
    rfl

/-- The pair that is taken off stands at the two ends. -/
theorem exists_of_outerPair? (h : outerPair? s = some (pair, inner)) :
    pair ∈ mathDelimiters ∧ s.trim = pair.1 ++ (inner ++ pair.2) := by
  obtain ⟨pair', hmem, hmap⟩ := List.exists_of_findSome?_eq_some h
  obtain ⟨inner', hbetween, heq⟩ := Option.map_eq_some_iff.1 hmap
  obtain ⟨rfl, rfl⟩ := Prod.mk.inj heq
  exact ⟨hmem, between?_eq_some_iff.1 hbetween⟩

/-- No pair is taken off only where none stands at the two ends. -/
theorem outerPair?_eq_none_iff :
    outerPair? s = none ↔ ∀ pair ∈ mathDelimiters, ∀ inner, s.trim ≠ pair.1 ++ (inner ++ pair.2) := by
  simp only [outerPair?, List.findSome?_eq_none_iff, Option.map_eq_none_iff, between?_eq_none_iff]

/-! ### One formula -/

/-- A dollar sign that closes a formula is not one of two that open it. -/
theorem IsClosedBy.head?_ne (h : IsClosedBy "$" inner) : inner.head? ≠ some '$' := by
  intro hhead
  cases inner with
  | nil => cases hhead
  | cons c rest =>
    obtain rfl := Option.some.inj hhead
    exact absurd (h.first [] rest rfl) (by simp)

/-- At a place where a delimiter opens, no delimiter opens that starts in another way. -/
theorem between?_eq_none_of_apart (opening' : Text) (hopens : opening <+: t)
    (hapart : ¬ opening' <+: opening ∧ ¬ opening <+: opening') (closing : Text) : between? opening' closing t = none := by
  refine between?_eq_none_iff.2 fun inner heq => ?_
  have hopens' : opening' <+: t := ⟨inner ++ closing, heq.symm⟩
  rcases List.prefix_or_prefix_of_prefix hopens' hopens with hle | hle
  · exact hapart.1 hle
  · exact hapart.2 hle

/-- The pair around one formula is the one that is found. -/
theorem IsFormula.outerPair?_eq (h : IsFormula pair inner s.trim) : outerPair? s = some (pair, inner) := by
  obtain ⟨hmem, heq, hclosed⟩ := h
  have hfound : between? pair.1 pair.2 s.trim = some inner := between?_eq_some_iff.2 heq
  have hopens : pair.1 <+: s.trim := ⟨inner ++ pair.2, heq.symm⟩
  simp only [mathDelimiters, List.mem_cons, List.not_mem_nil, or_false] at hmem
  simp only [outerPair?, mathDelimiters, List.findSome?_cons]
  rcases hmem with rfl | rfl | rfl | rfl
  · simp [hfound]
  · have hdollars := between?_eq_none_of_apart "$$" hopens (by decide) "$$"
    simp [hdollars, hfound]
  · have hdollars := between?_eq_none_of_apart "$$" hopens (by decide) "$$"
    have hbracket := between?_eq_none_of_apart "\\[" hopens (by decide) "\\]"
    simp [hdollars, hbracket, hfound]
  · -- two dollar signs at each end would leave one of them in the formula
    have hdollars : between? "$$" "$$" s.trim = none := by
      refine between?_eq_none_iff.2 fun inner' heq' => hclosed.head?_ne ?_
      have hbehind : inner ++ ("$" : Text) = ('$' : CodePoint) :: (inner' ++ "$$") := (List.cons.inj (heq.symm.trans heq')).2
      cases inner with
      | nil => exact absurd (congrArg List.length hbehind) (by simp [Text.ofString])
      | cons c rest => exact congrArg some (List.cons.inj hbehind).1
    have hbracket := between?_eq_none_of_apart "\\[" hopens (by decide) "\\]"
    have hround := between?_eq_none_of_apart "\\(" hopens (by decide) "\\)"
    simp [hdollars, hbracket, hround, hfound]

/-- Where the pair that is taken off belongs together, the source is one formula. -/
theorem isFormula_of_outerPair? (h : outerPair? s = some (pair, inner)) (hclosed : IsClosedBy pair.2 inner) :
    IsFormula pair inner s.trim :=
  ⟨(exists_of_outerPair? h).1, (exists_of_outerPair? h).2, hclosed⟩

/--
What is left of a source is what stands between the pair that is taken off. The closing delimiter of that pair closes
the opening one exactly if the source, as far as it stands between delimiters at all, is one formula between two; and
where it is, these two are taken off.
-/
theorem isClosedBy_outerPair?_iff (s : Text) :
    stripMathDelimiters s = (outerPair? s).elim s.trim (·.2.trim) ∧
      ((∀ pair inner, outerPair? s = some (pair, inner) → IsClosedBy pair.2 inner) ↔
        ∀ pair ∈ mathDelimiters, ∀ inner, s.trim = pair.1 ++ (inner ++ pair.2) →
          ∃ pair inner, IsFormula pair inner s.trim) ∧
      ∀ pair inner, IsFormula pair inner s.trim → outerPair? s = some (pair, inner) := by
  refine ⟨stripMathDelimiters_eq s, ⟨fun hgenuine pair hmem inner heq => ?_, fun hone pair inner hpair => ?_⟩,
    fun pair inner hformula => hformula.outerPair?_eq⟩
  · cases hpair : outerPair? s with
    | none => exact absurd heq (outerPair?_eq_none_iff.1 hpair pair hmem inner)
    | some found =>
      obtain ⟨pair', inner'⟩ := found
      exact ⟨pair', inner', isFormula_of_outerPair? hpair (hgenuine pair' inner' hpair)⟩
  · obtain ⟨hmem, heq⟩ := exists_of_outerPair? hpair
    obtain ⟨pair', inner', hformula⟩ := hone pair hmem inner heq
    have hsame := hformula.outerPair?_eq
    rw [hpair] at hsame
    obtain ⟨rfl, rfl⟩ := Prod.mk.inj (Option.some.inj hsame)
    exact hformula.isClosedBy

/-- Two formulas, each between dollar signs. -/
def twoFormulas : Text := "$a$ and $b$"

/-- The first and the last dollar sign of two formulas are taken off as a pair. -/
theorem not_isClosedBy_twoFormulas :
    ¬ ∀ s pair inner, outerPair? s = some (pair, inner) → IsClosedBy pair.2 inner := by
  intro hall
  have hclosed : IsClosedBy "$" "a$ and $b" := hall twoFormulas ("$", "$") "a$ and $b" (by decide)
  exact absurd (hclosed.first "a" " and $b" (by decide)) (by decide)

end EquationExport.Latex
