import EquationExport.Proofs.Omml.Draining
import EquationExport.Proofs.Omml.Matching

/-!
# Brackets in brackets

The repair of brackets goes from the outside in: what stands between two brackets comes into a container of its own,
which is looked at in the next sweep. So each sweep takes one bracket off the front of every nest, and as many sweeps
as a nest is deep leave no brackets around a tall construct. The sweeps are bounded, so deeper nests are left undone.
-/

namespace EquationExport.Omml

open Xml Xml.Node Repair

variable {node last : Node} {front inside rest old new seen out l : List Node} {build : List Node → Node} {d i n stop : Nat}
  {tall found : Bool} {f : Fragment}

/-! ### Pairs of brackets -/

/-- Brackets inside brackets, `n` pairs of them, each around the next, with a tall construct inside. -/
def Nested : Nat → List Node → Prop
  | 0, _ => True
  | n + 1, l => ∃ (front : List Node) (first : Node) (inside : List Node) (last : Node) (rest : List Node),
      l = front ++ first :: (inside ++ last :: rest) ∧ first.glyphs = "[" ∧ Balanced "[" "]" inside ∧
        last.glyphs = "]" ∧ inside.any (·.isTall) = true ∧ Nested n inside

/-- Where no span is found, no brackets stand around a tall construct. -/
theorem not_nested_of_bracketSpan (h : bracketSpan i l = none) : ¬ Nested 1 l := by
  induction l generalizing i with
  | nil =>
    rintro ⟨front, first, inside, last, rest, hl, -⟩
    simp at hl
  | cons node l ih =>
    simp only [bracketSpan] at h
    rintro ⟨front, first, inside, last, rest, hl, hfirst, hbalanced, hlast, htall, -⟩
    cases front with
    | nil =>
      obtain ⟨rfl, rfl⟩ := List.cons.inj hl
      have hend : bracketEnd? 0 false (i + 1) (inside ++ last :: rest) = some (i + 1 + inside.length, true) :=
        bracketEnd?_eq_some_iff.2 ⟨inside, last, rest, rfl, hlast, hbalanced, rfl, by rw [htall]; rfl⟩
      rw [if_pos hfirst, hend] at h
      cases h
    | cons n front =>
      obtain ⟨rfl, rfl⟩ := List.cons.inj hl
      have hnested : Nested 1 (front ++ first :: (inside ++ last :: rest)) :=
        ⟨front, first, inside, last, rest, rfl, hfirst, hbalanced, hlast, htall, trivial⟩
      split at h
      · split at h
        · cases h
        · exact ih h hnested
      · exact ih h hnested

/-! ### Nests -/

/-- Two objects in one list stand one before the other. -/
theorem append_cons_cases {a b a' b' : List Node} {x y : Node} (h : a ++ x :: b = a' ++ y :: b') (hne : x ≠ y) :
    (∃ more, a' = a ++ x :: more ∧ b = more ++ y :: b') ∨ ∃ more, a = a' ++ y :: more ∧ b' = more ++ x :: b := by
  rcases List.append_eq_append_iff.1 h with ⟨more, rfl, hmore⟩ | ⟨more, rfl, hmore⟩
  · cases more with
    | nil => exact absurd (List.cons.inj hmore).1 hne
    | cons z more =>
      obtain ⟨rfl, rfl⟩ := List.cons.inj hmore
      exact .inl ⟨more, rfl, rfl⟩
  · cases more with
    | nil => exact absurd (List.cons.inj hmore).1.symm hne
    | cons z more =>
      obtain ⟨rfl, rfl⟩ := List.cons.inj hmore
      exact .inr ⟨more, rfl, rfl⟩

namespace Nested

theorem one (h : Nested (n + 1) l) : Nested 1 l := by
  obtain ⟨front, first, inside, last, rest, hl, hfirst, hbalanced, hlast, htall, -⟩ := h
  exact ⟨front, first, inside, last, rest, hl, hfirst, hbalanced, hlast, htall, trivial⟩

/-- Objects that look alike hold the same nests. -/
theorem of_seenAlike (h : Nested n out) (halike : List.Forall₂ SeenAlike seen out) : Nested n seen := by
  induction n generalizing seen out with
  | zero => trivial
  | succ n ih =>
    obtain ⟨front, first, inside, last, rest, rfl, hfirst, hbalanced, hlast, htall, hnested⟩ := h
    have hflip : List.Forall₂ (fun a b => SeenAlike b a) (front ++ first :: (inside ++ last :: rest)) seen := halike.flip
    obtain ⟨front', more, rfl, -, hmore⟩ := exists_append_of_forall₂ hflip
    cases hmore with
    | @cons _ first' _ more halikeFirst hmore =>
      obtain ⟨inside', more, rfl, hinside, hmore⟩ := exists_append_of_forall₂ hmore
      cases hmore with
      | @cons _ last' _ rest' halikeLast _ =>
        refine ⟨front', first', inside', last', rest', rfl, ?_, ?_, ?_, ?_, ih hnested hinside.flip⟩
        · rw [← halikeFirst.glyphs, hfirst]
        · rw [Balanced, ← levelAfter?_of_seenAlike hinside.flip]
          exact hbalanced
        · rw [← halikeLast.glyphs, hlast]
        · rw [← any_isTall_of_seenAlike hinside.flip, htall]

/-- A tall construct that brackets have become can be taken apart again without loss of a nest. -/
theorem expand (hflat : node.glyphs = []) (hbalanced : Balanced "[" "]" old) (htall : old.any (·.isTall) = true)
    (h : Nested n (front ++ node :: rest)) : Nested n (front ++ (old ++ rest)) := by
  induction n generalizing front rest with
  | zero => trivial
  | succ n ih =>
    obtain ⟨before, first, inside, last, behind, hl, hfirst, hinside, hlast, hintall, hnested⟩ := h
    have hnode : Balanced "[" "]" [node] := .singleton (by rw [hflat]; decide) (by rw [hflat]; decide)
    have hne : ∀ {bracket : Node}, bracket.glyphs ≠ [] → node ≠ bracket := by
      rintro bracket hbracket rfl
      exact hbracket hflat
    -- the construct stands before the brackets, between them or behind them
    rcases append_cons_cases hl (hne (by rw [hfirst]; decide)) with ⟨more, rfl, rfl⟩ | ⟨more, rfl, hmore⟩
    · refine ⟨front ++ (old ++ more), first, inside, last, behind, ?_, hfirst, hinside, hlast, hintall, hnested⟩
      simp only [List.append_assoc]
    · rcases append_cons_cases hmore.symm (hne (by rw [hlast]; decide)) with ⟨more', rfl, rfl⟩ | ⟨more', rfl, rfl⟩
      · refine ⟨before, first, more ++ (old ++ more'), last, behind, ?_, hfirst, ?_, hlast, ?_, ih hnested⟩
        · simp only [List.append_assoc, List.cons_append]
        · rw [Balanced, hbalanced.levelAfter?_congr hnode]
          exact hinside
        · simp only [List.any_append, htall, Bool.true_or, Bool.or_true]
      · refine ⟨before, first, inside, last, more' ++ (old ++ rest), ?_, hfirst, hinside, hlast, hintall, hnested⟩
        simp only [List.append_assoc, List.cons_append]

end Nested

/-! ### Sweeps -/

theorem takesRuns_bracketSpan : TakesRuns (bracketSpan 0) IsEnclosing where
  covers := fun _ _ hspan => covers_isEnclosing hspan
  hasRun := fun old build hshape => faithful_bracketSpan.hasRun old build hshape.isBracketed
  isRun_build := fun old build objects hshape => faithful_bracketSpan.isRun_build old build objects hshape.isBracketed

/-- A sweep leaves nests that are less deep. -/
theorem drains_bracketSpan (n : Nat) :
    Drains (bracketSpan 0) IsEnclosing (fun l => ¬ Nested (n + 2) l) (fun l => ¬ Nested (n + 1) l) where
  toTakesRuns := takesRuns_bracketSpan
  alike := by
    rintro old build out ⟨first, inside, last, -, -, -, -, -, rfl⟩ -
    exact seenAlike_delimiter _ _ _ _
  keeps := by
    rintro front old rest build ⟨first, inside, last, rfl, hfirst, hbalanced, hlast, htall, rfl⟩ hbefore hnested
    refine hbefore (hnested.expand (glyphs_delimiter _ _ _) (hbalanced.enclose (by decide) hfirst hlast) ?_)
    simp only [List.any_cons, List.any_append, htall, Bool.true_or, Bool.or_true]
  builds := by
    rintro front old rest build out ⟨first, inside, last, rfl, hfirst, hbalanced, hlast, htall, rfl⟩ hbefore hout hinside
    refine everywhere_delimiter _ _ (fun hnested => hbefore ?_) (Lasting.interior hinside)
    cases hout with
    | @cons _ first' _ more _ hmore =>
      obtain ⟨inside', last', rfl, halike, hlast'⟩ := exists_append_of_forall₂ hmore
      cases hlast' with
      | @cons _ last' _ _ _ hnil =>
        cases hnil
        rw [interior_cons_append] at hnested
        refine ⟨front, first, inside, last, rest, by simp, hfirst, hbalanced, hlast, htall, hnested.of_seenAlike halike⟩
  ends := fun _ _ hnone hnested => not_nested_of_bracketSpan hnone hnested.one
  looks := fun _ _ halike hseen hout => hseen (hout.of_seenAlike halike)

theorem builds_isPlainRun_bracketSpan : Builds IsPlainRun (bracketSpan 0) := by
  refine Lasting.builds_of_covers (fun seen span => covers_of_bracketSpan) ?_
  rintro old build objects ⟨opening, inner, last, -, -, -, rfl⟩ - hobjects
  exact concerns_isPlainRun.delimiter (by decide) _ _ (concerns_isPlainRun.construct (by decide) (Lasting.interior hobjects))

/-- As many sweeps as nests are deep leave no brackets around a tall construct. -/
theorem not_nested_sweepFor (n : Nat) (hplain : Everywhere IsPlainRun f.children)
    (hdepth : ∀ c ∈ f.containers, ¬ Nested (n + 1) c.children) :
    ∀ c ∈ (sweepFor (bracketSpan 0) n f).1.containers, ¬ Nested 1 c.children := by
  rw [sweepFor_eq_iterate]
  induction n generalizing f with
  | zero => exact hdepth
  | succ n ih =>
    rw [Function.iterate_succ_apply]
    refine ih ?_ ((drains_bracketSpan n).sweep hplain hdepth)
    exact everywhere_exhaust builds_isPlainRun_bracketSpan _ _ _ hplain
      (everywhere_sweepNodes (survives_isPlainRun _) builds_isPlainRun_bracketSpan _ hplain)

/-- After the repair of brackets, none stand around a tall construct, if nowhere were more of them inside one another than
there are sweeps, and if no container stands in a run. -/
theorem not_nested_wrapBrackets (f : Fragment) (hplain : Everywhere IsPlainRun f.children)
    (hdepth : ∀ c ∈ f.containers, ¬ Nested (maxSweeps + 1) c.children) :
    ∀ c ∈ (wrapBrackets f).containers, ¬ Nested 1 c.children := not_nested_sweepFor maxSweeps hplain hdepth

/-! ### Where brackets are left -/

/-- A nest has as many opening brackets as it is deep. -/
theorem Nested.le_countP (h : Nested n l) : n ≤ l.countP fun m => m.glyphs == ("[" : Text) := by
  induction n generalizing l with
  | zero => exact Nat.zero_le _
  | succ n ih =>
    obtain ⟨front, first, inside, last, rest, rfl, hfirst, -, -, -, hnested⟩ := h
    have hinside := ih hnested
    simp only [List.countP_append, List.countP_cons, hfirst, beq_self_eq_true, if_true]
    omega

theorem not_nested_of_countP (hcount : ∀ c ∈ f.containers, (c.children.countP fun m => m.glyphs == ("[" : Text)) < n) :
    ∀ c ∈ f.containers, ¬ Nested n c.children := fun c hc hnested => Nat.not_le.2 (hcount c hc) hnested.le_countP

theorem exists_nested_of_bracketSpan (h : ∃ c ∈ f.containers, (bracketSpan 0 c.children).isSome = true) :
    ∃ c ∈ f.containers, Nested 1 c.children := by
  obtain ⟨c, hc, hsome⟩ := h
  obtain ⟨span, hspan⟩ := Option.isSome_iff_exists.1 hsome
  obtain ⟨front, old, rest, hl, ⟨first, inside, last, rfl, hfirst, hbalanced, hlast, htall, -⟩, -, -⟩ :=
    takesRuns_bracketSpan.exists_of_some hspan
  exact ⟨c, hc, front, first, inside, last, rest, by rw [hl]; simp, hfirst, hbalanced, hlast, htall, trivial⟩

/-- A root without content. -/
def emptyRoot : Node := mathElement "rad" [mathElement "deg" [], mathElement "e" []]

/-- Objects in `n` pairs of brackets. -/
def nest (n : Nat) (core : List Node) : List Node :=
  List.replicate n (plainRun "[") ++ core ++ List.replicate n (plainRun "]")

/-- A bracket, and behind its text a container that holds a pair of brackets around a root. -/
def veil (bracket : Text) : Node :=
  (plainRun bracket).withChildren ((plainRun bracket).children ++ [mathElement "e" (nest 1 [emptyRoot])])

/-- Two pairs of brackets around a sum. -/
def bracketedSum : Fragment := ⟨none, nest 2 [plainRun "1+", emptyRoot]⟩

theorem not_nested_wrapBrackets_bracketedSum :
    Everywhere IsPlainRun bracketedSum.children ∧
      (∀ c ∈ bracketedSum.containers, ¬ Nested (maxSweeps + 1) c.children) ∧
      ∀ c ∈ (wrapBrackets bracketedSum).containers, ¬ Nested 1 c.children :=
  have hplain : Everywhere IsPlainRun bracketedSum.children := by decide
  have hdepth : ∀ c ∈ bracketedSum.containers, ¬ Nested (maxSweeps + 1) c.children := not_nested_of_countP (by decide)
  ⟨hplain, hdepth, not_nested_wrapBrackets bracketedSum hplain hdepth⟩

/-- More pairs of brackets than there are sweeps. -/
def deepSum : Fragment := ⟨none, nest 33 [plainRun "1+", emptyRoot]⟩

/-- As many pairs of brackets as there are sweeps, and inside them a pair that cannot be seen in the first sweep. -/
def veiledSum : Fragment := ⟨none, nest 32 [veil "[", plainRun "1+", emptyRoot, veil "]"]⟩

/-- Of brackets that are deeper than there are sweeps the innermost are left. So are brackets that can be seen only after
the repair of containers in their runs, where they come to those that were seen before. -/
theorem exists_nested_wrapBrackets :
    (Everywhere IsPlainRun deepSum.children ∧ ∃ c ∈ (wrapBrackets deepSum).containers, Nested 1 c.children) ∧
      (∀ c ∈ veiledSum.containers, ¬ Nested (maxSweeps + 1) c.children) ∧
        ∃ c ∈ (wrapBrackets veiledSum).containers, Nested 1 c.children := by
  have hdeep : ∃ c ∈ (wrapBrackets deepSum).containers, (bracketSpan 0 c.children).isSome = true := by decide +kernel
  have hveiled : ∃ c ∈ (wrapBrackets veiledSum).containers, (bracketSpan 0 c.children).isSome = true := by decide +kernel
  refine ⟨⟨by decide +kernel, exists_nested_of_bracketSpan hdeep⟩, not_nested_of_countP (by decide +kernel), ?_⟩
  exact exists_nested_of_bracketSpan hveiled

end EquationExport.Omml
