import EquationExport.Proofs.Omml.Draining

/-!
# Rules that end by themselves

A bound on the sweeps of a repair may end it before its work is done. For integral signs, braces before matrices,
flattened fractions and delimiters around one tall construct it does not: what these rules build holds no container
with enough objects for another span, so one sweep leaves nothing to find. This needs that no container stands in a
run, since the text of such a run may change when the container in it is repaired.
-/

namespace EquationExport.Omml

open Xml Xml.Node Repair

variable {rule : SpanRule} {shape : Shape} {f g : Fragment} {l : List Node}

/-! ### Where a repair ends -/

/-- The repair of `f` by sweeps of the rule ends by itself, with `g`. -/
structure EndsAt (rule : SpanRule) (f g : Fragment) : Prop where
  /-- In no container are spans collapsed forever. -/
  terminates : WellFounded fun new old => Collapses rule old new
  /-- The same becomes of a container, however many steps more it is given. -/
  steps : ∀ fuel seen out, seen.length ≤ fuel → exhaust rule fuel seen out = repairContainer rule seen out
  /-- The same becomes of the fragment, however many sweeps it is given. -/
  sweeps : ∀ n, 0 < n → (sweepFor rule n f).1 = g
  /-- In no container is a span left. -/
  done : g.HoldsNone rule

/-- No span is left in any container by a rule that finds none in what it builds. -/
abbrev Finishes (rule : SpanRule) (shape : Shape) : Prop :=
  Drains rule shape (fun _ => True) fun l => (rule l).isNone = true

theorem Finishes.endsAt (h : Finishes rule shape) (hplain : Everywhere IsPlainRun f.children) :
    EndsAt rule f (sweepUntilStable rule f).1 := by
  have hnil : rule [] = none := h.eq_none_of_countP rfl
  have hswept : Fragment.HoldsNone (sweep rule f).1 rule := h.sweep hplain fun _ _ => trivial
  have hstable : (sweep rule (sweep rule f).1).1 = (sweep rule f).1 :=
    sweep_of_unchanged ((Fragment.sweep_snd_eq_false_iff hnil).2 hswept)
  have hsweeps : ∀ n, (sweepFor rule (n + 1) f).1 = (sweep rule f).1 := by
    intro n
    rw [sweepFor_eq_iterate, Function.iterate_succ_apply, Function.iterate_fixed hstable]
  refine ⟨h.wellFounded, fun fuel seen out hfuel => ?_, fun n hn => ?_, ?_⟩
  · exact h.exhaust_eq_of_le (List.countP_le_length.trans hfuel) List.countP_le_length
  · obtain ⟨n, rfl⟩ := Nat.exists_eq_succ_of_ne_zero (Nat.pos_iff_ne_zero.1 hn)
    exact (hsweeps n).trans (hsweeps 31).symm
  · rw [sweepUntilStable, maxSweeps, hsweeps]
    exact hswept

/-! ### What the rules build -/

/-- Too few objects for a span. -/
theorem TakesRuns.isNone_of_length (h : TakesRuns rule shape) {n : Nat} (hshape : ∀ old build, shape old build → n ≤ old.length)
    (hl : l.length < n) : (rule l).isNone = true := by
  rw [Option.isNone_iff_eq_none, Option.eq_none_iff_forall_ne_some]
  intro span hspan
  obtain ⟨front, old, rest, rfl, hold, -, -⟩ := h.exists_of_some hspan
  have hlength := hshape old span.build hold
  simp only [List.length_append] at hl
  omega

/-- A rule that finds no span in what it builds leaves none. -/
theorem TakesRuns.finishes (h : TakesRuns rule shape) (hlooks : GoesByLooks rule)
    (halike : ∀ old build out, shape old build → SeenAlike (build old) (build out))
    (hbuilds : ∀ old build out, shape old build → out.length = old.length →
      Everywhere (InContainer fun l => (rule l).isNone = true) out →
        Everywhere (InContainer fun l => (rule l).isNone = true) [build out]) : Finishes rule shape where
  toTakesRuns := h
  alike := fun old build out hshape _ => halike old build out hshape
  keeps := fun _ _ _ _ _ _ => trivial
  builds := fun _ old _ build out hshape _ hout hinside => hbuilds old build out hshape hout.length_eq.symm hinside
  ends := fun _ _ hnone => Option.isNone_iff_eq_none.2 hnone
  looks := by
    intro seen out hout hnone
    have hsome := hlooks hout
    rw [Option.isNone_iff_eq_none.1 hnone] at hsome
    simpa using hsome

theorem length_interior (objects : List Node) : (interior objects).length = objects.length - 2 := by
  rw [Repair.interior, List.length_dropLast, List.length_drop]
  omega

theorem finishes_braceSpan : Finishes (braceSpan 0) IsBraced := by
  have htakes : TakesRuns (braceSpan 0) IsBraced := faithful_braceSpan.takesRuns
  have htwo : ∀ old build, IsBraced old build → 2 ≤ old.length := by
    rintro old build (⟨brace, matrix, last, rfl, -⟩ | ⟨brace, matrix, rfl, -⟩) <;> simp
  refine htakes.finishes (goesByLooks_braceSpan 0) ?_ ?_
  · rintro old build out (⟨brace, matrix, last, -, -, -, rfl⟩ | ⟨brace, matrix, -, -, rfl⟩)
    · exact seenAlike_delimiter _ _ _ _
    · exact seenAlike_delimiter _ _ _ _
  · rintro old build out (⟨brace, matrix, last, rfl, -, -, rfl⟩ | ⟨brace, matrix, rfl, -, rfl⟩) hlength hinside
    · refine everywhere_delimiter _ _ (htakes.isNone_of_length htwo ?_) (Lasting.interior hinside)
      simp [length_interior, hlength]
    · refine everywhere_delimiter _ _ (htakes.isNone_of_length htwo ?_) (hinside.sublist (List.drop_sublist ..))
      simp [hlength]

theorem finishes_fractionSpan : Finishes (fractionSpan 0) IsFlattened := by
  have htakes : TakesRuns (fractionSpan 0) IsFlattened := faithful_fractionSpan.takesRuns
  have hfive : ∀ old build, IsFlattened old build → 5 ≤ old.length := by
    rintro old build ⟨opening, integral, text, plus, sum, last, close, rfl, -⟩
    simp only [List.length_cons, List.length_append, List.length_nil]
    omega
  refine htakes.finishes (goesByLooks_fractionSpan 0) ?_ ?_
  · rintro old build out ⟨opening, integral, text, plus, sum, last, close, -, -, rfl⟩
    exact seenAlike_delimiter _ _ _ _
  · rintro old build out ⟨opening, integral, text, plus, sum, last, close, rfl, hflat, rfl⟩ hout hinside
    have hplus : plus.length ≤ 1 := by
      rcases hflat.isPlus with rfl | ⟨one, rfl, -⟩ <;> simp
    have hlength : out.length = plus.length + 5 := by
      rw [hout]
      simp only [List.length_cons, List.length_append, List.length_nil]
    refine everywhere_delimiter _ _ (htakes.isNone_of_length hfive (by simp))
      (concerns_inContainer.construct (by decide) (everywhere_cons.2 ⟨?_, ?_⟩))
    · refine everywhere_slot _ (htakes.isNone_of_length hfive ?_)
        (hinside.sublist ((List.take_sublist ..).trans (List.drop_sublist ..)))
      rw [List.length_take, List.length_drop]
      omega
    · refine everywhere_slot _ (htakes.isNone_of_length hfive ?_)
        (hinside.sublist ((List.dropLast_sublist _).trans (List.drop_sublist ..)))
      rw [List.length_dropLast, List.length_drop]
      omega

theorem finishes_promotionSpan : Finishes (promotionSpan 0) IsPromoted := by
  have htakes : TakesRuns (promotionSpan 0) IsPromoted := faithful_promotionSpan.takesRuns
  have hthree : ∀ old build, IsPromoted old build → 3 ≤ old.length := by
    rintro old build ⟨opening, tall, last, close, rfl, -⟩
    simp
  refine htakes.finishes (goesByLooks_promotionSpan 0) ?_ ?_
  · rintro old build out ⟨opening, tall, last, close, -, -, -, rfl⟩
    exact seenAlike_delimiter _ _ _ _
  · rintro old build out ⟨opening, tall, last, close, rfl, -, -, rfl⟩ hlength hinside
    refine everywhere_delimiter _ _ (htakes.isNone_of_length hthree ?_) (Lasting.interior hinside)
    simp [length_interior, hlength]

/-! ### Integral signs -/

theorem glyphs_plainRun (t : Text) : (plainRun t).glyphs = t.trim := by
  have htext : (plainRun t).runText? = some (t ++ []) := rfl
  rw [glyphs, htext, List.append_nil, Option.getD_some]

theorem integralSpan_singleton {node : Node} (h : isGlyphOf integralGlyphs node.glyphs = false) :
    (integralSpan 0 [node]).isNone = true := by
  simp [integralSpan, h]

/-- No digit is an integral sign. -/
theorem isGlyphOf_integralGlyphs_of_digits {t : Text} (h : ∀ c ∈ t, c.isDigit = true) :
    isGlyphOf integralGlyphs t = false := by
  have hsigns : ∀ c ∈ integralGlyphs, c.isDigit = false := by decide
  rw [Bool.eq_false_iff]
  intro hsign
  unfold isGlyphOf at hsign
  split at hsign
  · next c =>
    have hdigit := h c (List.mem_singleton.2 rfl)
    rw [hsigns c (by simpa [Text.containsPoint] using hsign)] at hdigit
    cases hdigit
  · cases hsign

theorem isNone_integralSpan_lowerLimit (objects : List Node) : (integralSpan 0 (lowerLimit objects).1).isNone = true := by
  cases objects with
  | nil => rfl
  | cons node rest =>
    rw [lowerLimit]
    split
    · next hdigits =>
      have hall := List.all_eq_true.1 (Bool.and_eq_true_iff.1 hdigits).2
      refine integralSpan_singleton (isGlyphOf_integralGlyphs_of_digits fun c hc => hall c ?_)
      rw [glyphs_plainRun] at hc
      exact (Text.trim_isInfix _).subset hc
    · rfl

theorem isNone_integralSpan_upperLimit (objects : List Node) : (integralSpan 0 (upperLimit objects).1).isNone = true := by
  cases objects with
  | nil => rfl
  | cons node rest =>
    rw [upperLimit]
    split <;> rfl

theorem everywhere_plainRun {P : List Node → Prop} (t : Text) : Everywhere (InContainer P) [plainRun t] := by
  refine concerns_inContainer.construct (by decide) (everywhere_singleton.2 ⟨?_, everywhere_nil⟩)
  exact concerns_inContainer _ rfl

theorem everywhere_lowerLimit {P : List Node → Prop} (objects : List Node) :
    Everywhere (InContainer P) (lowerLimit objects).1 := by
  unfold lowerLimit
  split
  · split
    · exact everywhere_plainRun _
    · exact everywhere_nil
  · exact everywhere_nil

theorem everywhere_upperLimit {P : List Node → Prop} (objects : List Node) :
    Everywhere (InContainer P) (upperLimit objects).1 := by
  unfold upperLimit
  split
  · split
    · exact everywhere_plainRun _
    · exact everywhere_nil
  · exact everywhere_nil

/-- An integral sign with limits that are found in some objects. -/
def IsLimited : Shape := fun old build =>
  IsIntegral old build ∧ ∃ sign objects, build = fun _ =>
    nary sign (lowerLimit objects).1 (upperLimit (lowerLimit objects).2).1 [] (some underOver)

theorem exists_build_of_integralSpan {i : Nat} {seen : List Node} {span : Span} (h : integralSpan i seen = some span) :
    ∃ sign objects, span.build = fun _ =>
      nary sign (lowerLimit objects).1 (upperLimit (lowerLimit objects).2).1 [] (some underOver) := by
  induction seen generalizing i with
  | nil => simp [integralSpan] at h
  | cons node seen ih =>
    simp only [integralSpan] at h
    split at h
    · simp only [Option.some.injEq] at h
      subst h
      exact ⟨node.glyphs, seen, rfl⟩
    · exact ih h

theorem takesRuns_integralSpan : TakesRuns (integralSpan 0) IsLimited where
  covers := by
    intro seen span hspan
    obtain ⟨front, old, rest, hseen, hstart, hstop, hshape⟩ := covers_of_integralSpan hspan
    exact ⟨front, old, rest, hseen, hstart, hstop, hshape, exists_build_of_integralSpan hspan⟩
  hasRun := fun old build hshape => faithful_integralSpan.hasRun old build hshape.1
  isRun_build := fun old build objects hshape => faithful_integralSpan.isRun_build old build objects hshape.1

theorem finishes_integralSpan : Finishes (integralSpan 0) IsLimited := by
  refine takesRuns_integralSpan.finishes (goesByLooks_integralSpan 0) ?_ ?_
  · rintro old build out ⟨-, sign, objects, rfl⟩
    exact .refl _
  · rintro old build out ⟨-, sign, objects, rfl⟩ - -
    refine concerns_inContainer.nary (by decide) _ _ (everywhere_cons.2 ⟨?_, everywhere_cons.2 ⟨?_, ?_⟩⟩)
    · exact everywhere_slot _ (isNone_integralSpan_lowerLimit _) (everywhere_lowerLimit _)
    · exact everywhere_slot _ (isNone_integralSpan_upperLimit _) (everywhere_upperLimit _)
    · exact everywhere_slot _ rfl everywhere_nil

/-! ### Scripts on large operators -/

/-- The fragment in which integral signs are looked for: scripts on large operators are n-ary operators. -/
def promoteScripts (f : Fragment) : Fragment :=
  { f with children := rebuildAll (fun node => [promoteScript node]) f.children }

/-- Scripts have their base in a container. -/
theorem promoteScript_of_no_container {node : Node} (h : ∀ c ∈ node.children, c.isContainer = false) :
    promoteScript node = node := by
  have hbase : slotChildren node "e" = [] := by
    have hnone : node.slot? "e" = none := by
      refine slot?_eq_none_iff.2 fun c hc => ?_
      exact Bool.eq_false_iff.2 fun hnamed => List.any_eq_false.1 (h c hc) "e" (by decide) hnamed
    rw [slotChildren, hnone]
  rw [promoteScript, hbase]
  split <;> rfl

theorem rebuildAll_promoteScript_of_no_container (h : Everywhere (fun n => n.isContainer = false) l) :
    rebuildAll (fun node => [promoteScript node]) l = l := by
  induction l using forest_induction with
  | nil => rfl
  | element tag text children tail rest ihc ihr =>
    obtain ⟨hnode, hrest⟩ := everywhere_cons.1 h
    obtain ⟨-, hbelow⟩ := everywhere_singleton.1 hnode
    have hroot : promoteScript (element tag text children tail) = element tag text children tail :=
      promoteScript_of_no_container fun c hc => (everywhere_singleton.1 (hbelow.of_mem hc)).1
    rw [rebuildAll, Node.rebuild, ihc hbelow, ihr hrest, hroot]
    rfl
  | comment content tail rest ih | instruction target content tail rest ih =>
    rw [rebuildAll, Node.rebuild, ih (everywhere_cons.1 h).2]
    rfl

theorem everywhere_isPlainRun_promoteScript {node : Node} (h : Everywhere IsPlainRun [node]) :
    Everywhere IsPlainRun [promoteScript node] := by
  unfold promoteScript
  split
  · split
    · dsimp only
      split
      · refine concerns_isPlainRun.nary (by decide) _ _ (everywhere_cons.2 ⟨?_, everywhere_cons.2 ⟨?_, ?_⟩⟩)
        · exact concerns_isPlainRun.construct (by decide) (Lasting.slotChildren h "sub")
        · exact concerns_isPlainRun.construct (by decide) (Lasting.slotChildren h "sup")
        · exact concerns_isPlainRun.construct (by decide) everywhere_nil
      · exact h
    · exact h
  · exact h

theorem everywhere_isPlainRun_promoteScripts (h : Everywhere IsPlainRun l) :
    Everywhere IsPlainRun (rebuildAll (fun node => [promoteScript node]) l) := by
  induction l using forest_induction with
  | nil => exact everywhere_nil
  | element tag text children tail rest ihc ihr =>
    obtain ⟨hnode, hrest⟩ := everywhere_cons.1 h
    obtain ⟨hroot, hbelow⟩ := everywhere_singleton.1 hnode
    refine everywhere_append.2 ⟨everywhere_isPlainRun_promoteScript (everywhere_singleton.2 ⟨fun hrun => ?_, ihc hbelow⟩), ihr hrest⟩
    have hplain : Everywhere (fun n => n.isContainer = false) children := hroot hrun
    rw [children_element, rebuildAll_promoteScript_of_no_container hplain]
    exact hplain
  | comment content tail rest ih | instruction target content tail rest ih =>
    obtain ⟨hnode, hrest⟩ := everywhere_cons.1 h
    exact everywhere_append.2 ⟨everywhere_isPlainRun_promoteScript hnode, ih hrest⟩

/-! ### The four repairs -/

/-- Where no container stands in a run, four of the repairs end by themselves. -/
theorem endsAt_repairs (f : Fragment) (h : Everywhere IsPlainRun f.children) :
    EndsAt (integralSpan 0) (promoteScripts f) (rebuildIntegrals f) ∧ EndsAt (braceSpan 0) f (wrapBraces f) ∧
      EndsAt (fractionSpan 0) f (rebuildFractions f).1 ∧ EndsAt (promotionSpan 0) f (promoteDelimiters f) :=
  ⟨finishes_integralSpan.endsAt (everywhere_isPlainRun_promoteScripts h), finishes_braceSpan.endsAt h,
    finishes_fractionSpan.endsAt h, finishes_promotionSpan.endsAt h⟩

/-- An integral sign with its limits, and a matrix in braces. -/
def signBesideBraces : Fragment :=
  ⟨none, [plainRun "∫", plainRun "0", plainRun "∞", plainRun "\x7b", mathElement "m" [], plainRun "\x7d"]⟩

theorem endsAt_repairs_signBesideBraces :
    Everywhere IsPlainRun signBesideBraces.children ∧
      EndsAt (integralSpan 0) (promoteScripts signBesideBraces) (rebuildIntegrals signBesideBraces) ∧
      EndsAt (braceSpan 0) signBesideBraces (wrapBraces signBesideBraces) ∧
      EndsAt (fractionSpan 0) signBesideBraces (rebuildFractions signBesideBraces).1 ∧
      EndsAt (promotionSpan 0) signBesideBraces (promoteDelimiters signBesideBraces) :=
  have hplain : Everywhere IsPlainRun signBesideBraces.children := by decide
  ⟨hplain, endsAt_repairs signBesideBraces hplain⟩

end EquationExport.Omml
