import EquationExport.Proofs.Latex.Pending

/-!
# How many rounds of expansion are enough

Each round takes one environment off every nest: at every opening that a round leaves, the environment that is being
expanded around it, or the opening that finds no end any more, has gone, so the nesting of the text is less by one. No
formula of items is asked for here; ends may be missing, environments may cross, and marks may stand in arguments. After
as many rounds as environments are nested there is nothing left to expand, and sixteen rounds are made. Seventeen
environments in one another show that the bound is sharp.
-/

namespace EquationExport.Latex

variable {e : Environment} {s t u rest put : Text} {c : CodePoint} {n : Nat}

/-! ### What is expanded -/

/-- The body of an environment reaches to the first end, and an argument to the first bracket. -/
theorem exists_split_of_body? {name after body : Text} (h : body? name after = some (body, rest)) :
    ∃ argument, after = writeArgument argument ++ (body ++ (closing name ++ rest)) ∧
      (∀ t ∈ argument, (']' : CodePoint) ∉ t) ∧ Text.Passes (·.dropPrefix? (closing name)) body (closing name ++ rest) := by
  have hpasses : ∀ {s : Text}, s.breakOn? (closing name) = some (body, rest) →
      s = body ++ (closing name ++ rest) ∧ Text.Passes (·.dropPrefix? (closing name)) body (closing name ++ rest) := by
    intro s hbreak
    obtain ⟨rfl, -, hfirst⟩ := Text.breakOn?_eq_some_iff.1 hbreak
    refine ⟨List.append_assoc _ _ _, fun u hu hsuffix => ?_⟩
    obtain ⟨before, rfl⟩ := hsuffix
    have hlength : before.length < (before ++ u).length := by
      rw [List.length_append]
      have := List.length_pos_of_ne_nil hu
      omega
    have hnot := hfirst before.length hlength
    rw [List.append_assoc, List.append_assoc, Text.StandsAt, List.drop_left] at hnot
    exact Text.dropPrefix?_eq_none_iff.2 hnot
  unfold body? at h
  rcases Option.or_eq_some_iff.1 h with h | ⟨-, h⟩
  · obtain ⟨behind, hbehind, hbreak⟩ := Option.bind_eq_some_iff.1 h
    obtain ⟨rfl, hbody⟩ := hpasses hbreak
    unfold skipArgument? at hbehind
    split at hbehind
    · next r hr =>
      obtain ⟨⟨t, behind'⟩, hbracket, rfl⟩ := Option.map_eq_some_iff.1 hbehind
      obtain ⟨rfl, -, hfirst⟩ := Text.breakOn?_eq_some_iff.1 hbracket
      refine ⟨some t, ?_, ?_, hbody⟩
      · rw [Text.eq_append_of_dropPrefix? hr]
        simp [writeArgument]
      · rintro t' ht hmem
        obtain rfl := Option.some.inj ht
        obtain ⟨a, b, rfl⟩ := List.append_of_mem hmem
        refine hfirst a.length (by simp) ?_
        simp [Text.StandsAt, Text.ofString]
    · cases hbehind
  · obtain ⟨rfl, hbody⟩ := hpasses h
    exact ⟨none, rfl, fun t ht => (by cases ht), hbody⟩

/-- What is expanded is an environment, up to its first end, and its argument is left out. -/
theorem exists_split_of_expandMatrix? (h : expandMatrix? s = some (put, rest)) :
    ∃ e ∈ environments, ∃ argument body, s = opening e.name ++ writeArgument argument ++ (body ++ (closing e.name ++ rest)) ∧
      put = e.leading ++ (body ++ e.trailing) ∧ (∀ t ∈ argument, (']' : CodePoint) ∉ t) ∧
      Text.Passes (·.dropPrefix? (closing e.name)) body (closing e.name ++ rest) := by
  obtain ⟨kind, hkind, name, hname, argument, body, rfl, -, -⟩ := exists_of_expandMatrix? h
  obtain ⟨e, he, rfl, rfl⟩ := exists_environment hkind hname
  rw [expandMatrix?_opening he] at h
  obtain ⟨⟨body, rest'⟩, hbody, heq⟩ := Option.map_eq_some_iff.1 h
  obtain ⟨rfl, rfl⟩ := Prod.mk.inj heq
  obtain ⟨argument', hafter, hargument, hpasses⟩ := exists_split_of_body? hbody
  refine ⟨e, he, argument', body, ?_, MatrixKind.render_eq _ _, hargument, hpasses⟩
  rw [hafter, List.append_assoc]

/-- An opening that is left has no end behind it. -/
theorem not_mem_ends_of_expandMatrix? (he : e ∈ environments) (h : expandMatrix? (opening e.name ++ s) = none) :
    e ∉ ends (opening e.name ++ s) := by
  intro hmem
  rw [expandMatrix?_opening he, Option.map_eq_none_iff, body?, Option.or_eq_none_iff, Text.breakOn?_eq_none_iff] at h
  exact h.2 (infix_of_mem_ends (ends_opening he ▸ hmem))

/-! ### One round -/

/-- A round goes from place to place: a code point is kept, or an environment is expanded. -/
inductive Round : Text → Text → Prop where
  | done : Round [] []
  | keep {c : CodePoint} {s t : Text} : expandMatrix? (c :: s) = none → Round s t → Round (c :: s) (c :: t)
  /-- The argument of the opening goes, and the body stays as it is. -/
  | expand {e : Environment} {argument : Option Text} {body s t : Text} : e ∈ environments →
    (∀ a ∈ argument, (']' : CodePoint) ∉ a) → Text.Passes (·.dropPrefix? (closing e.name)) body (closing e.name ++ s) →
    Round s t →
    Round (opening e.name ++ writeArgument argument ++ (body ++ (closing e.name ++ s)))
      (e.leading ++ (body ++ (e.trailing ++ t)))

theorem round_expandMatricesOnce (s : Text) : Round s (expandMatricesOnce s) := by
  induction hlength : s.length using Nat.strongRecOn generalizing s with
  | _ k ih =>
    obtain rfl := hlength
    cases s with
    | nil => exact .done
    | cons c s =>
      cases hexpand : expandMatrix? (c :: s) with
      | none =>
        rw [expandMatricesOnce, Text.substitute_cons hexpand]
        exact .keep hexpand (ih s.length (Nat.lt_succ_self _) s rfl)
      | some change =>
        obtain ⟨put, rest⟩ := change
        obtain ⟨e, he, argument, body, hs, rfl, hargument, hbody⟩ := exists_split_of_expandMatrix? hexpand
        have hsplit : c :: s = (opening e.name ++ writeArgument argument ++ (body ++ closing e.name)) ++ rest := by simp [hs]
        have hne : opening e.name ++ writeArgument argument ++ (body ++ closing e.name) ≠ [] := by
          simp [opening, Text.ofString]
        have hround : Round rest (expandMatricesOnce rest) := by
          refine ih rest.length ?_ rest rfl
          rw [hsplit, List.length_append]
          have := List.length_pos_of_ne_nil hne
          omega
        rw [expandMatricesOnce, hsplit, Text.substitute_append hne (hsplit ▸ hexpand)]
        simpa [expandMatricesOnce] using Round.expand he hargument hbody hround

/-- What a round puts in the place of an environment starts with a backslash, as the environment does. -/
theorem Round.reach_eq (h : Round s t) : reach t = reach s := by
  induction h with
  | done => rfl
  | keep _ _ ih => rw [← List.singleton_append, reach_append, ih, ← reach_append, List.singleton_append]
  | expand =>
    rw [List.append_assoc, reach_opening]
    exact reach_backslash _

/-- In the body of an environment the same signs are read, whether its end stands behind or what replaces it. -/
theorem sign?_body (e : Environment) (c : CodePoint) (body s t : Text) :
    sign? (c :: (body ++ (e.trailing ++ t))) = sign? (c :: (body ++ (closing e.name ++ s))) := by
  refine sign?_cons_congr ?_
  have htrailing : reach (e.trailing ++ t) = [] := reach_backslash _
  rw [reach_append, htrailing, ← reach_closing e.name s, ← reach_append]

/-- The end of the environment that is expanded is one end less. -/
theorem cons_ends_body_le (he : e ∈ environments) (hends : ends t ≤ ends s) (body : Text) :
    e ::ₘ ends (body ++ (e.trailing ++ t)) ≤ ends (body ++ (closing e.name ++ s)) := by
  induction body with
  | nil =>
    have hsame := (Pending.deepest_append_of_passes (p := ⟨0, 0⟩) (passes_replacement he t).2).2.2
    rw [List.nil_append, List.nil_append, ends_closing he, hsame]
    exact Multiset.cons_le_cons e hends
  | cons c body ih =>
    have hsign := sign?_body e c body s t
    rw [List.cons_append, List.cons_append]
    by_cases hcloses : ∃ e', sign? (c :: (body ++ (closing e.name ++ s))) = some (.closes e')
    · obtain ⟨e', he'⟩ := hcloses
      rw [ends_cons_closes he', ends_cons_closes (hsign.trans he'), Multiset.cons_swap]
      exact Multiset.cons_le_cons e' ih
    · rw [ends_cons (not_exists.1 hcloses), ends_cons (hsign ▸ not_exists.1 hcloses)]
      exact ih

/-- A round brings no ends in. -/
theorem Round.ends_le (h : Round s t) : ends t ≤ ends s := by
  induction h with
  | done => exact le_refl _
  | @keep c s t _ hround ih =>
    have hsign := sign?_cons_congr (c := c) hround.reach_eq
    by_cases hcloses : ∃ e', sign? (c :: s) = some (.closes e')
    · obtain ⟨e', he'⟩ := hcloses
      rw [ends_cons_closes he', ends_cons_closes (hsign.trans he')]
      exact Multiset.cons_le_cons e' ih
    · rw [ends_cons (not_exists.1 hcloses), ends_cons (hsign ▸ not_exists.1 hcloses)]
      exact ih
  | @expand e argument body s t he hargument hbody hround ih =>
    rw [(Pending.deepest_append_of_passes (p := ⟨0, 0⟩) (passes_replacement he _).1).2.2]
    exact ((Multiset.le_cons_self _ e).trans (cons_ends_body_le he ih body)).trans (ends_le_append _ _)

/-! ### One environment less -/

namespace Pending

variable {p q : Pending}

/-- Two openings at one place, where one environment more is open at the second and one more is to end. -/
theorem level_lt {s t : Text} (hopened : e ::ₘ p.opened ≤ q.opened) (hends : e ::ₘ ends t ≤ ends s)
    (hsign : sign? t = sign? s) (hlevel : q.level s ≤ n + 1) : p.level t ≤ n := by
  unfold level at hlevel ⊢
  rw [hsign]
  split
  · next e' bracketed heq =>
    split
    · next hmem =>
      rw [heq] at hlevel
      have hmem' : e' ∈ ends s := Multiset.mem_of_le hends (Multiset.mem_cons_of_mem hmem)
      simp only [if_pos hmem'] at hlevel
      have hmore : e ::ₘ ((e' ::ₘ p.opened) ∩ ends t) ≤ (e' ::ₘ q.opened) ∩ ends s := by
        refine Multiset.le_inter ?_ ?_
        · refine (Multiset.cons_le_cons e Multiset.inter_le_left).trans ?_
          rw [Multiset.cons_swap]
          exact Multiset.cons_le_cons e' hopened
        · exact (Multiset.cons_le_cons e Multiset.inter_le_right).trans hends
      have hcard := Multiset.card_le_card hmore
      rw [Multiset.card_cons] at hcard
      omega
    · exact Nat.zero_le n
  · exact Nat.zero_le n

/-- In an environment that is being expanded the nesting is one less. -/
theorem deepest_inside (he : e ∈ environments) (hends : ends t ≤ ends s)
    (hrest : ∀ p q : Pending, p.Within q → q.deepest s ≤ n + 1 → p.deepest t ≤ n) {body : Text}
    (hbody : Text.Passes (·.dropPrefix? (closing e.name)) body (closing e.name ++ s)) (hin : (p.inside e).Within q)
    (hdeep : q.deepest (body ++ (closing e.name ++ s)) ≤ n + 1) : p.deepest (body ++ (e.trailing ++ t)) ≤ n := by
  induction body generalizing p q with
  | nil =>
    obtain ⟨hdeepest, hwithin, -⟩ := deepest_append_of_passes (p := p) (passes_replacement he t).2
    have hclosed : q.after (closing e.name) s = q.next (some (.closes e)) := by
      rw [after_mark (closing_mem he), sign?_closing he]
    have hbehind := (deepest_append_le q (closing e.name) s).trans hdeep
    rw [hclosed] at hbehind
    rw [List.nil_append, hdeepest]
    exact hrest _ _ (hwithin.trans hin.of_inside) hbehind
  | cons c body ih =>
    obtain ⟨hfirst, hpasses⟩ := Text.passes_cons.1 hbody
    have hsign := sign?_body e c body s t
    have hlevel := (le_max_left _ _).trans hdeep
    have hbehind := (le_max_right _ _).trans hdeep
    have hnot : sign? (c :: (body ++ (closing e.name ++ s))) ≠ some (.closes e) := by
      intro hcloses
      obtain ⟨-, after, hafter⟩ := exists_of_sign?_closes hcloses
      rw [hafter, Text.dropPrefix?_append] at hfirst
      cases hfirst
    refine max_le (level_lt hin.1 (cons_ends_body_le he hends (c :: body)) hsign hlevel) (ih hpasses ?_ hbehind)
    show ((p.next (sign? (c :: (body ++ (e.trailing ++ t))))).inside e).Within _
    rw [hsign, ← next_inside hnot]
    exact hin.next _

end Pending

/-- A round lowers the nesting by one. -/
theorem Round.deepest_le (h : Round s t) {p q : Pending} (hpq : p.Within q) (hdeep : q.deepest s ≤ n + 1) :
    p.deepest t ≤ n := by
  induction h generalizing p q with
  | done => exact Nat.zero_le n
  | @keep c s t hexpand hround ih =>
    have hsign := sign?_cons_congr (c := c) hround.reach_eq
    have hlevel : p.level (c :: t) = 0 := by
      unfold Pending.level
      rw [hsign]
      split
      · next e bracketed heq =>
        obtain ⟨he, after, hafter⟩ := exists_of_sign?_opens heq
        rw [hafter] at hexpand
        have hnot := not_mem_ends_of_expandMatrix? he hexpand
        rw [← hafter] at hnot
        exact if_neg fun hmem => hnot (Multiset.mem_of_le (Round.keep (hafter ▸ hexpand) hround).ends_le hmem)
      · rfl
    refine max_le (hlevel ▸ Nat.zero_le n) (ih ?_ ((le_max_right _ _).trans hdeep))
    rw [hsign]
    exact hpq.next _
  | @expand e argument body s t he hargument hbody hround ih =>
    obtain ⟨hdeepest, hwithin, -⟩ :=
      Pending.deepest_append_of_passes (p := p) (passes_replacement he (body ++ (e.trailing ++ t))).1
    rw [hdeepest]
    refine Pending.deepest_inside he hround.ends_le (fun p q => ih) hbody ?_ ((Pending.deepest_append_le q _ _).trans hdeep)
    exact Pending.inside_within_after he hargument (hwithin.trans hpq)

theorem nesting_expandMatricesOnce (h : nesting s ≤ n + 1) : nesting (expandMatricesOnce s) ≤ n :=
  (round_expandMatricesOnce s).deepest_le (Pending.within_refl _) h

/-- After as many rounds as environments are nested, none is. -/
theorem nesting_expandMatricesFor (h : nesting s ≤ n) : nesting (expandMatricesFor n s) = 0 := by
  induction n generalizing s with
  | zero => exact Nat.le_zero.1 h
  | succ n ih =>
    rw [expandMatricesFor_succ]
    exact ih (nesting_expandMatricesOnce h)

/-! ### Nothing left to expand -/

/-- Where an environment is expanded, at least that one is nested. -/
theorem level_pos_of_expandMatrix? (p : Pending) (h : expandMatrix? s = some (put, rest)) : 0 < p.level s := by
  obtain ⟨e, he, argument, body, rfl, -⟩ := exists_split_of_expandMatrix? h
  have hsign : ∃ bracketed, sign? (opening e.name ++ writeArgument argument ++ (body ++ (closing e.name ++ rest))) =
      some (.opens e bracketed) := by
    rw [List.append_assoc]
    exact ⟨_, sign?_opening he⟩
  obtain ⟨bracketed, hsign⟩ := hsign
  have hmem : e ∈ ends (opening e.name ++ writeArgument argument ++ (body ++ (closing e.name ++ rest))) := by
    refine Multiset.mem_of_le ((ends_le_append body _).trans (ends_le_append _ _)) ?_
    rw [ends_closing he]
    exact Multiset.mem_cons_self e _
  simp only [Pending.level, hsign, if_pos hmem]
  exact Multiset.card_pos_iff_exists_mem.2 ⟨e, Multiset.mem_inter.2 ⟨Multiset.mem_cons_self e _, hmem⟩⟩

/-- A text in which nothing is nested is not changed. -/
theorem expandMatrix?_of_nesting (h : nesting s = 0) (hsuffix : u <:+ s) : expandMatrix? u = none := by
  obtain ⟨before, rfl⟩ := hsuffix
  cases hexpand : expandMatrix? u with
  | none => rfl
  | some change =>
    have hu : u ≠ [] := by
      rintro rfl
      cases hexpand
    have hpos := level_pos_of_expandMatrix? (Pending.after ⟨0, 0⟩ before u) hexpand
    have hle := (Pending.level_le_deepest _ hu).trans (Pending.deepest_append_le ⟨0, 0⟩ before u)
    rw [nesting] at h
    omega

theorem expandMatricesOnce_of_nesting (h : nesting s = 0) : expandMatricesOnce s = s := by
  have hpasses : Text.Passes expandMatrix? s [] := fun u _ hsuffix => by
    rw [List.append_nil]
    exact expandMatrix?_of_nesting h hsuffix
  have hsame := hpasses.substitute
  rw [List.append_nil] at hsame
  rw [expandMatricesOnce, hsame]
  exact List.append_nil s

/--
A text in which no more than sixteen matrix environments are nested, whether they are balanced, cross or lack their
ends, is expanded until no environment is left to expand, so that expanding it again changes nothing.
-/
theorem expandMatrixEnvironments_settled (h : nesting s ≤ maxMatrixRounds) :
    (expandMatrixEnvironments s).holds expandMatrix? = false ∧
      expandMatrixEnvironments (expandMatrixEnvironments s) = expandMatrixEnvironments s := by
  have hzero : nesting (expandMatrixEnvironments s) = 0 := nesting_expandMatricesFor h
  have hnone : Text.breakAt? expandMatrix? (expandMatrixEnvironments s) = none :=
    Text.breakAt?_eq_none_iff.2 fun i _ => expandMatrix?_of_nesting hzero (List.drop_suffix i _)
  refine ⟨by rw [Text.holds, hnone]; rfl, ?_⟩
  have hstays : ∀ t, expandMatricesOnce t = t → expandMatrixEnvironments t = t := fun t ht => if_pos ht
  exact hstays _ (expandMatricesOnce_of_nesting hzero)

/-- Environments that cross, one that lacks its end, and an end in the argument of another. -/
def crossedMatrices : Text :=
  "\\begin\x7bpmatrix\x7da\\begin\x7bcases\x7db\\end\x7bpmatrix\x7d\\begin\x7bvmatrix\x7d[\\end\x7bcases\x7d]c" ++
    ("\\begin\x7bcases\x7dd\\end\x7bvmatrix\x7d\\end\x7bcases\x7d\\begin\x7bbmatrix\x7d" : Text)

theorem expandMatrixEnvironments_settled_crossedMatrices :
    nesting crossedMatrices = 2 ∧ (expandMatrixEnvironments crossedMatrices).holds expandMatrix? = false ∧
      expandMatrixEnvironments (expandMatrixEnvironments crossedMatrices) = expandMatrixEnvironments crossedMatrices := by
  have hnesting : nesting crossedMatrices = 2 := by decide +kernel
  have h : nesting crossedMatrices ≤ maxMatrixRounds := by
    rw [hnesting]
    decide
  exact ⟨hnesting, expandMatrixEnvironments_settled h⟩

/-- Environments of one name in one another. -/
def nestedCases (n : Nat) : Text :=
  (List.replicate n ("\\begin\x7bcases\x7d" : Text)).flatten ++ ("x" : Text) ++
    (List.replicate n ("\\end\x7bcases\x7d" : Text)).flatten

/-- Of seventeen environments in one another the last round leaves one, which is expanded if the rounds start again. -/
theorem exists_holds_expandMatrixEnvironments :
    ¬ ∀ s, (expandMatrixEnvironments s).holds expandMatrix? = false ∧
      expandMatrixEnvironments (expandMatrixEnvironments s) = expandMatrixEnvironments s := by
  intro hall
  have hleft : (expandMatrixEnvironments (nestedCases 17)).holds expandMatrix? = true := by decide +kernel
  rw [(hall (nestedCases 17)).1] at hleft
  cases hleft

end EquationExport.Latex
