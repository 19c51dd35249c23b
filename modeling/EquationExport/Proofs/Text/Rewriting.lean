import EquationExport.Text.Substitution

/-!
# What a substitution does, place by place

`substitute` goes through a text by counting the code points that it leaves out. `Rewriting` says the same
without counting: a code point is kept, or a part of the text is taken away and something put in its place. It
also lists the places where the rule was applied, so that a condition can be stated on them.
-/

namespace EquationExport.Text

/--
The places where a rule is applied, each as what has been put out in front of it and what of the text is left
behind it. `out` has been put out before, and the next `skip` code points are left out.
-/
def applicationsFrom (rule : Rule) : Text → Option CodePoint → Nat → Text → List (Text × Text)
  | _, _, _, [] => []
  | out, _, skip + 1, c :: s => applicationsFrom rule out (some c) skip s
  | out, before, 0, c :: s => match rule before (c :: s) with
    | some (put, rest) => (out, rest) :: applicationsFrom rule (out ++ put) (some c) (s.length - rest.length) s
    | none => applicationsFrom rule (out ++ [c]) (some c) 0 s

/-- The places where a rule is applied in a substitution. -/
def applications (s : Text) (rule : Rule) : List (Text × Text) := applicationsFrom rule [] none 0 s

/--
A text behind the code point `before` is rewritten to another, `out` having been put out before; the rule is
applied at the given places.
-/
inductive Rewriting (rule : Rule) : Text → Option CodePoint → Text → Text → List (Text × Text) → Prop where
  | done (out : Text) (before : Option CodePoint) : Rewriting rule out before [] [] []
  /-- The rule says nothing here, and a code point is kept. -/
  | keep {out : Text} {before : Option CodePoint} {c : CodePoint} {s t : Text} {places : List (Text × Text)} :
    rule before (c :: s) = none → Rewriting rule (out ++ [c]) (some c) s t places →
    Rewriting rule out before (c :: s) (c :: t) places
  /-- The rule puts `put` in the place of `old`. -/
  | apply {out : Text} {before : Option CodePoint} {old rest put t : Text} {places : List (Text × Text)} :
    old ≠ [] → rule before (old ++ rest) = some (put, rest) →
    Rewriting rule (out ++ put) old.getLast? rest t places →
    Rewriting rule out before (old ++ rest) (put ++ t) ((out, rest) :: places)

/-- The rule leaves the rear of what it is given, without the first code point. -/
def Rule.Advances (rule : Rule) : Prop :=
  ∀ before c s put rest, rule before (c :: s) = some (put, rest) → rest <:+ s

variable {rule : Rule}

/-- A rule advances if it takes something away from the front. -/
theorem advances_of_exists
    (h : ∀ before s put rest, rule before s = some (put, rest) → ∃ old, old ≠ [] ∧ s = old ++ rest) : rule.Advances := by
  intro before c s put rest happly
  obtain ⟨old, hold, hs⟩ := h before (c :: s) put rest happly
  cases old with
  | nil => exact absurd rfl hold
  | cons d old =>
    obtain ⟨-, rfl⟩ := List.cons_eq_cons.1 hs
    exact ⟨old, rfl⟩

theorem getLast?_cons_or (c : CodePoint) (front : Text) (before : Option CodePoint) :
    ((c :: front).getLast?).or before = front.getLast?.or (some c) := by
  rw [List.getLast?_cons]
  cases front.getLast? <;> rfl

theorem substituteFrom_skip (before : Option CodePoint) (front rest : Text) :
    substituteFrom rule before front.length (front ++ rest) =
      substituteFrom rule (front.getLast?.or before) 0 rest := by
  induction front generalizing before with
  | nil => rfl
  | cons c front ih =>
    rw [getLast?_cons_or]
    exact ih (some c)

theorem applicationsFrom_skip (out : Text) (before : Option CodePoint) (front rest : Text) :
    applicationsFrom rule out before front.length (front ++ rest) =
      applicationsFrom rule out (front.getLast?.or before) 0 rest := by
  induction front generalizing before with
  | nil => rfl
  | cons c front ih =>
    rw [getLast?_cons_or]
    exact ih (some c)

/-- A rule that advances rewrites a text to what substitution makes of it. -/
theorem rewriting_substituteFrom (hrule : rule.Advances) (out : Text) (before : Option CodePoint) (s : Text) :
    Rewriting rule out before s (substituteFrom rule before 0 s) (applicationsFrom rule out before 0 s) := by
  induction hn : s.length using Nat.strongRecOn generalizing out before s with
  | _ n ih =>
    cases s with
    | nil => exact .done out before
    | cons c s =>
      obtain rfl := hn
      simp only [substituteFrom, applicationsFrom]
      cases happly : rule before (c :: s) with
      | none => exact .keep happly (ih s.length (by simp) _ _ s rfl)
      | some change =>
        obtain ⟨put, rest⟩ := change
        obtain ⟨front, rfl⟩ := hrule before c s put rest happly
        have hskip : (front ++ rest).length - rest.length = front.length := by simp
        have hlast : front.getLast?.or (some c) = (c :: front).getLast? := by
          rw [← getLast?_cons_or c front none, Option.or_none]
        simp only [hskip, substituteFrom_skip, applicationsFrom_skip, hlast]
        refine @Rewriting.apply rule out before (c :: front) rest put _ _ (by simp) happly (ih rest.length ?_ _ _ rest rfl)
        simp only [List.length_cons, List.length_append]
        omega

theorem rewriting_substitute (hrule : rule.Advances) (s : Text) :
    Rewriting rule [] none s (s.substitute rule) (s.applications rule) :=
  rewriting_substituteFrom hrule [] none s

end EquationExport.Text
