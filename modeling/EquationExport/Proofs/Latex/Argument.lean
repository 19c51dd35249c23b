import EquationExport.Proofs.Latex.Nesting

/-!
# The argument of a matrix

A starred environment may have an argument in square brackets behind its opening, which says how its columns are
aligned and is no part of the matrix. Expansion takes such an argument away behind every opening, starred or not, so
that a matrix without a star loses what stands in brackets at the beginning of its first cell. All else in the body is
kept as it is, also a bracket that is not closed.
-/

namespace EquationExport.Latex

variable {e : Environment} {s t body rest : Text}

/-! ### An argument at the front -/

/-- An argument reaches to the first closing bracket. -/
theorem skipArgument?_eq_some_iff :
    skipArgument? s = some rest ↔ ∃ t, (']' : CodePoint) ∉ t ∧ s = writeArgument (some t) ++ rest := by
  constructor
  · intro h
    unfold skipArgument? at h
    split at h
    · next behind hbehind =>
      obtain ⟨⟨t, rest'⟩, hbreak, rfl⟩ := Option.map_eq_some_iff.1 h
      obtain ⟨rfl, -, hfirst⟩ := Text.breakOn?_eq_some_iff.1 hbreak
      refine ⟨t, fun hmem => ?_, by rw [Text.eq_append_of_dropPrefix? hbehind]; simp [writeArgument]⟩
      obtain ⟨a, b, rfl⟩ := List.append_of_mem hmem
      exact hfirst a.length (by simp) (by simp [Text.StandsAt, Text.ofString])
    · cases h
  · rintro ⟨t, ht, rfl⟩
    have hdrop : Text.dropPrefix? (writeArgument (some t) ++ rest) "[" = some (t ++ (("]" : Text) ++ rest)) := by
      rw [writeArgument, List.append_assoc, List.append_assoc]
      exact Text.dropPrefix?_append _ _
    rw [skipArgument?, hdrop]
    exact congrArg (Option.map (·.2)) (Text.breakOn?_of_not_mem ht)

/-- There is no argument where no bracket is opened, or none is closed. -/
theorem skipArgument?_eq_none_iff :
    skipArgument? s = none ↔ ∀ t, s = ('[' : CodePoint) :: t → (']' : CodePoint) ∉ t := by
  constructor
  · rintro hnone t rfl hmem
    obtain ⟨inside, rest, rfl, hinside⟩ := List.eq_append_cons_of_mem hmem
    have hsome : skipArgument? (('[' : CodePoint) :: (inside ++ (']' : CodePoint) :: rest)) = some rest :=
      skipArgument?_eq_some_iff.2 ⟨inside, hinside, by simp [writeArgument, Text.ofString]⟩
    rw [hnone] at hsome
    cases hsome
  · intro hnot
    refine Option.eq_none_iff_forall_ne_some.2 fun rest hsome => ?_
    obtain ⟨t, -, rfl⟩ := skipArgument?_eq_some_iff.1 hsome
    refine hnot (t ++ (("]" : Text) ++ rest)) (by simp [writeArgument, Text.ofString]) (by simp [Text.ofString])

/-- The end of an environment is no part of an argument in front of it. -/
theorem skipArgument?_append_closing (he : e ∈ environments) (body : Text) :
    skipArgument? (body ++ closing e.name) = (skipArgument? body).map (· ++ closing e.name) := by
  obtain ⟨-, -, hopens, hcloses⟩ := shape_of_marks _ (closing_mem he)
  cases hskip : skipArgument? body with
  | some rest =>
    obtain ⟨t, ht, rfl⟩ := skipArgument?_eq_some_iff.1 hskip
    exact skipArgument?_eq_some_iff.2 ⟨t, ht, List.append_assoc _ _ _⟩
  | none =>
    refine skipArgument?_eq_none_iff.2 fun t ht hmem => ?_
    cases body with
    | nil => exact hopens (by rw [List.nil_append] at ht; simp [ht])
    | cons c body =>
      obtain ⟨rfl, rfl⟩ := List.cons.inj ht
      rcases List.mem_append.1 hmem with hmem | hmem
      · exact skipArgument?_eq_none_iff.1 hskip body rfl hmem
      · exact hcloses hmem

/-! ### A matrix on its own -/

/-- The body of an environment without what is taken for its argument. -/
def withoutArgument (body : Text) : Text := (skipArgument? body).getD body

theorem withoutArgument_suffix (body : Text) : withoutArgument body <:+ body := by
  unfold withoutArgument
  cases hskip : skipArgument? body with
  | none => exact List.suffix_refl body
  | some rest =>
    obtain ⟨t, -, rfl⟩ := skipArgument?_eq_some_iff.1 hskip
    exact List.suffix_append _ _

/-- The whole body is kept exactly if no argument stands in front of it. -/
theorem withoutArgument_eq_self_iff : withoutArgument body = body ↔ skipArgument? body = none := by
  unfold withoutArgument
  cases hskip : skipArgument? body with
  | none => simp
  | some rest =>
    obtain ⟨t, -, rfl⟩ := skipArgument?_eq_some_iff.1 hskip
    refine ⟨fun heq => ?_, fun hnone => by cases hnone⟩
    have hlength := congrArg List.length heq
    simp [writeArgument, Text.ofString] at hlength
    omega

/-- Without `\begin` and `\end` there are no marks of environments. -/
theorem isPlain_of_lacks (hbegin : ¬ ("\\begin" : Text) <:+: t) (hend : ¬ ("\\end" : Text) <:+: t) : Source.IsPlain t := by
  have hmarks : ∀ m ∈ marks, ("\\begin" : Text) <+: m ∨ ("\\end" : Text) <+: m := by decide +kernel
  intro m hm hpart
  rcases hmarks m hm with hfront | hfront
  · exact hbegin (hfront.isInfix.trans hpart)
  · exact hend (hfront.isInfix.trans hpart)

theorem isPlain_of_part (hs : Source.IsPlain s) (hpart : t <:+: s) : Source.IsPlain t :=
  fun m hm hmark => hs m hm (hmark.trans hpart)

/-- The body of a matrix on its own reaches up to its end. -/
theorem body?_append_closing (he : e ∈ environments) (hbody : Source.IsPlain body) :
    body? e.name (body ++ closing e.name) = some (withoutArgument body, []) := by
  have hmark : ∀ u, mark? u = none → u.dropPrefix? (closing e.name) = none :=
    fun u hu => Text.dropPrefix?_eq_none_iff.2 (mark?_eq_none_iff.1 hu _ (closing_mem he))
  have hbreak : ∀ t, Source.IsPlain t → (t ++ closing e.name).breakOn? (closing e.name) = some (t, []) := by
    intro t ht
    have hpasses : Text.Passes mark? t (closing e.name) :=
      passes_of_absent ht (fun m hm => (shape_of_marks m hm).2.1) _
    have hend : (closing e.name).breakOn? (closing e.name) = some ([], []) :=
      Text.breakAt?_of_found (Text.dropPrefix?_eq_some_iff.2 (List.append_nil _).symm)
    rw [Text.breakOn?, (hpasses.mono hmark).breakAt?]
    exact (congrArg _ hend).trans (by simp)
  rw [body?, skipArgument?_append_closing he, withoutArgument]
  cases hskip : skipArgument? body with
  | none => exact hbreak body hbody
  | some rest =>
    obtain ⟨t, -, rfl⟩ := skipArgument?_eq_some_iff.1 hskip
    have hrest := hbreak rest (isPlain_of_part hbody (List.suffix_append _ _).isInfix)
    rw [Option.map_some, Option.bind_some, hrest, Option.some_or]
    rfl

/-- A matrix on its own is expanded in one round. -/
theorem expandMatricesOnce_single (he : e ∈ environments) (hbody : Source.IsPlain body) :
    expandMatricesOnce (opening e.name ++ (body ++ closing e.name)) = e.kind.render (withoutArgument body) := by
  have hexpand : expandMatrix? ((opening e.name ++ (body ++ closing e.name)) ++ []) =
      some (e.kind.render (withoutArgument body), []) := by
    rw [List.append_nil, expandMatrix?_opening he, body?_append_closing he hbody]
    rfl
  have hne : opening e.name ++ (body ++ closing e.name) ≠ [] := by simp [opening, Text.ofString]
  have hround := Text.substitute_append hne hexpand
  rwa [List.append_nil, show Text.substitute [] (fun _ => expandMatrix?) = [] from rfl, List.append_nil] at hround

/-- A plain matrix without marks in its body stays as it is. -/
theorem expandMatricesFor_render (he : e ∈ environments) (ht : Source.IsPlain t) (n : Nat) :
    expandMatricesFor n (e.kind.render t) = e.kind.render t := by
  have hpasses : Text.Passes mark? (e.kind.render t) [] := by
    rw [MatrixKind.render_eq]
    refine Text.passes_append.2 ⟨(passes_replacement he _).1, Text.passes_append.2 ⟨?_, (passes_replacement he _).2⟩⟩
    exact passes_of_absent ht (fun m hm => (shape_of_marks m hm).2.1) _
  have hitems : IsClear [.text (e.kind.render t)] := ⟨hpasses, trivial⟩
  have hsame := expandMatricesFor_written (n := n) hitems rfl
  simpa [Item.write, Item.translate] using hsame

/--
A matrix on its own is expanded to a plain matrix that holds its whole body but for an argument in front of it, whether
the environment has a star or not; so the body is kept whole exactly if it does not start with a bracket that is closed
in it.
-/
theorem expandMatrixEnvironments_single (he : e ∈ environments) (hbegin : ¬ ("\\begin" : Text) <:+: body)
    (hend : ¬ ("\\end" : Text) <:+: body) :
    expandMatrixEnvironments (opening e.name ++ (body ++ closing e.name)) = e.kind.render (withoutArgument body) ∧
      (withoutArgument body = body ↔ ∀ t, body = ('[' : CodePoint) :: t → (']' : CodePoint) ∉ t) := by
  have hbody := isPlain_of_lacks hbegin hend
  have hkept := isPlain_of_part hbody (withoutArgument_suffix body).isInfix
  refine ⟨?_, withoutArgument_eq_self_iff.trans skipArgument?_eq_none_iff⟩
  rw [expandMatrixEnvironments, maxMatrixRounds, expandMatricesFor_succ, expandMatricesOnce_single he hbody,
    expandMatricesFor_render he hkept]

/-- The plain environment with brackets. -/
def bracketed : Environment := ⟨⟨"bmatrix", some ("[", "]")⟩, false⟩

/-- Intervals that are open on the right: no bracket is closed. -/
def halfOpenIntervals : Text := "[0,1)&a\\\\[1,2)&b"

theorem expandMatrixEnvironments_halfOpenIntervals :
    bracketed ∈ environments ∧ ¬ ("\\begin" : Text) <:+: halfOpenIntervals ∧ ¬ ("\\end" : Text) <:+: halfOpenIntervals ∧
      expandMatrixEnvironments (opening bracketed.name ++ (halfOpenIntervals ++ closing bracketed.name)) =
        bracketed.kind.render halfOpenIntervals := by
  have he : bracketed ∈ environments := by decide +kernel
  have hbegin : ¬ ("\\begin" : Text) <:+: halfOpenIntervals := by decide
  have hend : ¬ ("\\end" : Text) <:+: halfOpenIntervals := by decide
  obtain ⟨hexpand, -⟩ := expandMatrixEnvironments_single he hbegin hend
  exact ⟨he, hbegin, hend, hexpand⟩

/-- Intervals of which the first is open on the right and the second on the left: a bracket is closed in the second row. -/
def mixedIntervals : Text := "[0,1)&a\\\\(1,2]&b"

/-- Of a matrix without a star the first row goes, up to the bracket in the second. -/
theorem expandMatrixEnvironments_mixedIntervals :
    ¬ ∀ kind ∈ matrixKinds, ∀ body : Text, ¬ ("\\begin" : Text) <:+: body → ¬ ("\\end" : Text) <:+: body →
      ("\\begin\x7bmatrix\x7d" ++ body ++ "\\end\x7bmatrix\x7d" : Text) <:+:
        expandMatrixEnvironments (opening kind.name ++ (body ++ closing kind.name)) := by
  intro hall
  have hkept := hall bracketed.kind (by decide) mixedIntervals (by decide) (by decide)
  exact absurd hkept (by decide +kernel)

end EquationExport.Latex
