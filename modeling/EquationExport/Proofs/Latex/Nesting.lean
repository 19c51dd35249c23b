import EquationExport.Proofs.Latex.Environment

/-!
# Nested matrices

A formula in which matrix environments are nested, up to sixteen in one another, is expanded to the formula in which
every opening and every end has been replaced by what its kind asks for, and nothing else has changed, also where
environments of one name stand in one another.

The rounds in between do not keep the nesting: an outer opening is taken together with the first end of its name, which
may belong to an environment inside, and what is left crosses. What is kept is weaker: of each name, at every place, no
more environments have ended than have been opened, and at the end none is open. How many are open at a place, of all
names together, is less after each round by one at least, so that as many rounds are enough as environments stand in
one another.
-/

namespace EquationExport.Latex

variable {e : Environment} {items rest : List Item} {n : Nat} {opened : Multiset Environment}

/-! ### Environments that are open -/

/--
Every end finds an open environment of its name, whichever of them it is, no more than `n` are open at a time, and
none is open at the end. `opened` are the environments that are open at the front.
-/
def Runs (n : Nat) : Multiset Environment → List Item → Prop
  | opened, [] => opened = 0
  | opened, .text _ :: rest => Runs n opened rest
  | opened, .opens e _ :: rest => opened.card < n ∧ Runs n (e ::ₘ opened) rest
  | opened, .closes e :: rest => e ∈ opened ∧ Runs n (opened.erase e) rest

/-- What is open is closed behind. -/
theorem Runs.exists_split (h : Runs n opened items) (he : e ∈ opened) :
    ∃ body behind opened', items = body ++ .closes e :: behind ∧ .closes e ∉ body ∧ Runs n opened' behind := by
  induction items generalizing opened with
  | nil =>
    rw [show opened = 0 from h] at he
    exact absurd he (Multiset.notMem_zero e)
  | cons item rest ih =>
    have hcons : ∀ opened', e ∈ opened' → Runs n opened' rest → item ≠ .closes e →
        ∃ body behind opened', item :: rest = body ++ .closes e :: behind ∧ .closes e ∉ body ∧ Runs n opened' behind := by
      intro opened' he' hrest hne
      obtain ⟨body, behind, opened'', rfl, hbody, hbehind⟩ := ih hrest he'
      exact ⟨item :: body, behind, opened'', rfl, by simpa [hbody] using hne.symm, hbehind⟩
    cases item with
    | text t => exact hcons opened he h (by simp)
    | opens e' argument => exact hcons _ (Multiset.mem_cons_of_mem he) h.2 (by simp)
    | closes e' =>
      by_cases heq : e' = e
      · subst heq
        exact ⟨[], rest, _, rfl, List.not_mem_nil, h.2⟩
      · refine hcons _ ?_ h.2 (by simpa using heq)
        rwa [Multiset.mem_erase_of_ne (Ne.symm heq)]

/-- After a round one environment less is open at every place. -/
theorem Runs.expandItems (inside : Option Environment) (hcard : opened.card ≤ n)
    (h : Runs (n + 1) (inside.elim opened (· ::ₘ opened)) items) : Runs n opened (expandItems inside items) := by
  induction items generalizing inside opened with
  | nil =>
    cases inside with
    | none => exact h
    | some e => exact absurd h (Multiset.cons_ne_zero)
  | cons item rest ih =>
    cases inside with
    | none =>
      cases item with
      | text t => exact ih none hcard h
      | opens e argument => exact ih (some e) hcard h.2
      | closes e => exact ⟨h.1, ih none ((Multiset.card_le_card (Multiset.erase_le e opened)).trans hcard) h.2⟩
    | some e =>
      cases item with
      | text t => exact ih (some e) hcard h
      | opens e' argument =>
        obtain ⟨hlt, hrest⟩ := h
        have hlt' : opened.card < n := by simpa using hlt
        refine ⟨hlt', ih (some e) (by rwa [Multiset.card_cons]) ?_⟩
        rwa [Option.elim_some, Multiset.cons_swap]
      | closes e' =>
        obtain ⟨hmem, hrest⟩ := h
        rw [Latex.expandItems]
        split
        · next heq =>
          subst heq
          refine ih none hcard ?_
          rwa [Option.elim_some, Multiset.erase_cons_head] at hrest
        · next hne =>
          have hmem' : e' ∈ opened := (Multiset.mem_cons.1 hmem).resolve_left hne
          refine ⟨hmem', ih (some e) ((Multiset.card_le_card (Multiset.erase_le e' opened)).trans hcard) ?_⟩
          rwa [Option.elim_some, Multiset.erase_cons_tail _ (Ne.symm hne)] at hrest

/-- Where none may be open, there is nothing but text. -/
theorem Runs.written_eq (h : Runs 0 0 items) : written items = translated items := by
  induction items with
  | nil => rfl
  | cons item rest ih =>
    cases item with
    | text t => rw [written_cons, translated_cons, ih h, Item.write, Item.translate]
    | opens e argument => exact absurd h.1 (Nat.not_lt_zero _)
    | closes e => exact absurd h.1 (Multiset.notMem_zero e)

/-! ### Rounds -/

/-- No end of the environment is read in items that do not end it. -/
theorem passes_closing (he : e ∈ environments) {body : List Item} (hbody : .closes e ∉ body) (h : IsClear (body ++ rest)) :
    Text.Passes (·.dropPrefix? (closing e.name)) (written body) (written rest) := by
  have hfound : ∀ (c : CodePoint) (u : Text), c ≠ '\\' → Text.dropPrefix? (c :: u) (closing e.name) = none :=
    fun c u hc => if_neg hc
  have hmark : ∀ u, mark? u = none → u.dropPrefix? (closing e.name) = none :=
    fun u hu => Text.dropPrefix?_eq_none_iff.2 (mark?_eq_none_iff.1 hu _ (closing_mem he))
  induction body with
  | nil => exact Text.passes_nil
  | cons item body ih =>
    rw [written_cons]
    have hrest := ih (fun hmem => hbody (List.mem_cons_of_mem _ hmem))
    cases item with
    | text t =>
      obtain ⟨ht, hclear⟩ := h
      have ht : Text.Passes mark? t (written body ++ written rest) := written_append body rest ▸ ht
      exact Text.passes_append.2 ⟨ht.mono hmark, hrest hclear⟩
    | opens e' argument =>
      obtain ⟨he', hargument, hclear⟩ := h
      have hinside : ∀ t ∈ argument, ∀ m ∈ marks, ¬ m <:+: t := by
        rintro t rfl
        exact hargument.2
      have hopening : ∀ s, Text.dropPrefix? (opening e'.name ++ s) (closing e.name) = none := by
        intro s
        refine Text.dropPrefix?_eq_none_iff.2 ?_
        rintro ⟨more, hmore⟩
        have hsecond : some ('e' : CodePoint) = some 'b' := congrArg (·[1]?) hmore
        exact absurd hsecond (by decide)
      rw [Item.write, List.append_assoc]
      exact Text.passes_append.2 ⟨passes_mark hfound (opening_mem he') (hopening _),
        Text.passes_append.2 ⟨(passes_writeArgument hinside _).mono hmark, hrest hclear⟩⟩
    | closes e' =>
      obtain ⟨he', hclear⟩ := h
      have hclosing : ∀ s, Text.dropPrefix? (closing e'.name ++ s) (closing e.name) = none := by
        refine fun s => Text.dropPrefix?_eq_none_iff.2 fun hprefix => hbody ?_
        rw [eq_of_closing_front he' he hprefix]
        exact List.mem_cons_self
      exact Text.passes_append.2 ⟨passes_mark hfound (closing_mem he') (hclosing _), hrest hclear⟩

/-- Behind an opening stands the body, up to the first end of the name, without an argument. -/
theorem body?_written (he : e ∈ environments) {argument : Option Text} {body behind : List Item}
    (hbody : .closes e ∉ body) (h : IsClear (.opens e argument :: (body ++ .closes e :: behind))) :
    body? e.name (writeArgument argument ++ written (body ++ .closes e :: behind)) = some (written body, written behind) := by
  obtain ⟨-, hargument, hclear⟩ := h
  have hbreak : (written (body ++ .closes e :: behind)).breakOn? (closing e.name) = some (written body, written behind) := by
    have hend : (closing e.name ++ written behind).breakOn? (closing e.name) = some ([], written behind) :=
      Text.breakAt?_of_found (Text.dropPrefix?_append _ _)
    have hpasses := (passes_closing he hbody hclear).breakAt?
    rw [written_append, Text.breakOn?, hpasses]
    exact (congrArg _ hend).trans (by simp)
  cases argument with
  | some t =>
    have hskip : skipArgument? (writeArgument (some t) ++ written (body ++ .closes e :: behind)) =
        some (written (body ++ .closes e :: behind)) := by
      have hdrop : Text.dropPrefix? (writeArgument (some t) ++ written (body ++ .closes e :: behind)) "[" =
          some (t ++ (("]" : Text) ++ written (body ++ .closes e :: behind))) := by
        rw [writeArgument, List.append_assoc, List.append_assoc]
        exact Text.dropPrefix?_append _ _
      rw [skipArgument?, hdrop]
      exact congrArg (Option.map (·.2)) (Text.breakOn?_of_not_mem hargument.1)
    rw [body?, hskip, Option.bind_some, hbreak, Option.some_or]
  | none =>
    have hskip : skipArgument? (written (body ++ .closes e :: behind)) = none := by
      have hdrop : Text.dropPrefix? (written (body ++ .closes e :: behind)) "[" = none := by
        refine Text.dropPrefix?_eq_none_iff.2 ?_
        rintro ⟨more, hmore⟩
        refine hargument ?_
        rw [← hmore]
        rfl
      rw [skipArgument?, hdrop]
    rw [writeArgument, List.nil_append, body?, hskip, Option.bind_none, Option.none_or, hbreak]

/-- An environment at the front is replaced with its body left as it is, and the round goes on behind its end. -/
theorem expandMatricesOnce_opens {argument : Option Text} {body behind : List Item} (hbody : .closes e ∉ body)
    (h : IsClear (.opens e argument :: (body ++ .closes e :: behind))) :
    expandMatricesOnce (written (.opens e argument :: (body ++ .closes e :: behind))) =
      e.leading ++ (written body ++ (e.trailing ++ expandMatricesOnce (written behind))) := by
  have hsplit : written (.opens e argument :: (body ++ .closes e :: behind)) =
      (opening e.name ++ (writeArgument argument ++ (written body ++ closing e.name))) ++ written behind := by
    simp [Item.write]
  have hexpand : expandMatrix? ((opening e.name ++ (writeArgument argument ++ (written body ++ closing e.name))) ++ written behind) =
      some (e.kind.render (written body), written behind) := by
    have hbodyRead := body?_written h.1 hbody h
    rw [← hsplit, written_cons, Item.write, List.append_assoc, expandMatrix?_opening h.1, hbodyRead]
    rfl
  have hne : opening e.name ++ (writeArgument argument ++ (written body ++ closing e.name)) ≠ [] := by
    obtain ⟨tail, htail, -⟩ := exists_of_mem_marks (opening_mem h.1)
    rw [htail]
    exact List.cons_ne_nil _ _
  rw [expandMatricesOnce, hsplit, Text.substitute_append hne hexpand, MatrixKind.render_eq]
  simp [Environment.leading, Environment.trailing, expandMatricesOnce]

/-- A round on a formula is a round on its items. -/
theorem expandMatricesOnce_written (hclear : IsClear items) (hruns : Runs n opened items) :
    expandMatricesOnce (written items) = written (expandItems none items) := by
  induction hlength : items.length using Nat.strongRecOn generalizing items opened with
  | _ k ih =>
    cases items with
    | nil => rfl
    | cons item rest =>
      obtain rfl := hlength
      cases item with
      | text t =>
        obtain ⟨ht, hclear⟩ := hclear
        have hrest : expandMatricesOnce (written rest) = written (expandItems none rest) :=
          ih rest.length (by simp) hclear hruns rfl
        have hkeeps := (ht.mono fun u => expandMatrix?_of_mark?).substitute
        rw [expandItems_text, written_cons, written_cons, ← hrest]
        exact hkeeps
      | opens e argument =>
        obtain ⟨body, behind, opened', rfl, hbody, hbehind⟩ := hruns.2.exists_split (Multiset.mem_cons_self e opened)
        have hclearBehind : IsClear behind := (IsClear.of_append hclear.2.2).2
        have hrest := ih behind.length (by simp; omega) hclearBehind hbehind rfl
        rw [expandMatricesOnce_opens hbody hclear, expandItems, expandItems_split hbody, hrest]
        simp [Item.write]
      | closes e =>
        obtain ⟨he, hclear⟩ := hclear
        have hrest := ih rest.length (by simp) hclear hruns.2 rfl
        have hend : expandMatrix? (closing e.name ++ written rest) = none := by
          refine if_neg fun hstarts => ?_
          obtain ⟨more, hmore⟩ := startsWith_iff.1 hstarts
          have hsecond : some ('b' : CodePoint) = some 'e' := congrArg (·[1]?) hmore
          exact absurd hsecond (by decide)
        have hpasses := passes_mark (fun c u hc => expandMatrix?_of_mark? (mark?_cons_of_ne hc u)) (closing_mem he) hend
        show Text.substitute (closing e.name ++ written rest) _ = closing e.name ++ written (expandItems none rest)
        rw [hpasses.substitute, ← hrest]
        rfl

/-- A round that changes nothing is followed by no other. -/
theorem expandMatricesFor_succ (n : Nat) (s : Text) : expandMatricesFor (n + 1) s = expandMatricesFor n (expandMatricesOnce s) := by
  rw [expandMatricesFor]
  split
  · next hsame =>
    rw [hsame]
    cases n with
    | zero => rfl
    | succ n => rw [expandMatricesFor, if_pos hsame]
  · rfl

/-- As many rounds are enough as environments are open at a time. -/
theorem expandMatricesFor_written (hclear : IsClear items) (hruns : Runs n 0 items) :
    expandMatricesFor n (written items) = translated items := by
  induction n generalizing items with
  | zero => exact hruns.written_eq
  | succ n ih =>
    have hround : Runs n 0 (expandItems none items) := Runs.expandItems none (Nat.zero_le _) hruns
    rw [expandMatricesFor_succ, expandMatricesOnce_written hclear hruns,
      ih (isClear_expandItems (fun _ hnone => by cases hnone) hclear) hround, translated_expandItems]

/-! ### Formulas -/

/-- A formula with matrix environments in it, each closed by the end of its own name, star included. -/
inductive Source where
  | text (t : Text)
  /-- An environment, with an argument in square brackets or without, between a text and the rest of the formula. -/
  | matrix (before : Text) (e : Environment) (argument : Option Text) (body after : Source)

namespace Source

/-- The formula as it is written. -/
def write : Source → Text
  | text t => t
  | matrix before e argument body after =>
    before ++ opening e.name ++ writeArgument argument ++ body.write ++ closing e.name ++ after.write

/--
The formula with every opening and its argument replaced by the left delimiter of its kind and the opening of a plain
matrix, and every end by the end of a plain matrix and the right delimiter.
-/
def translate : Source → Text
  | text t => t
  | matrix before e _ body after => before ++ e.leading ++ body.translate ++ e.trailing ++ after.translate

/-- How many environments stand in one another. -/
def depth : Source → Nat
  | text _ => 0
  | matrix _ _ _ body after => max (body.depth + 1) after.depth

/-- No opening and no end of an environment is in the text. -/
def IsPlain (t : Text) : Prop := ∀ m ∈ marks, ¬ m <:+: t

/--
The texts and the arguments hold no marks of environments, an argument holds no closing bracket, and without an
argument the body does not start with a bracket.
-/
def IsProper : Source → Prop
  | text t => IsPlain t
  | matrix before e argument body after =>
    IsPlain before ∧ e ∈ environments ∧ (∀ t ∈ argument, (']' : CodePoint) ∉ t ∧ IsPlain t) ∧
      (argument = none → body.write.head? ≠ some '[') ∧ body.IsProper ∧ after.IsProper

instance (t : Text) : Decidable (IsPlain t) := inferInstanceAs (Decidable (∀ m ∈ marks, ¬ m <:+: t))

/-- The parts of the formula. -/
def toItems : Source → List Item
  | text t => [.text t]
  | matrix before e argument body after => .text before :: .opens e argument :: (body.toItems ++ .closes e :: after.toItems)

theorem written_toItems (source : Source) : written source.toItems = source.write := by
  induction source with
  | text t => simp [toItems, write, Item.write]
  | matrix before e argument body after ihb iha => simp [toItems, write, Item.write, ihb, iha]

theorem translated_toItems (source : Source) : translated source.toItems = source.translate := by
  induction source with
  | text t => simp [toItems, translate, Item.translate]
  | matrix before e argument body after ihb iha => simp [toItems, translate, Item.translate, ihb, iha]

/-- In front of a mark or of nothing a text without marks is read as a text. -/
theorem passes_of_isPlain {t : Text} (ht : IsPlain t) (hrest : written rest = [] ∨ ∃ s, written rest = ('\\' : CodePoint) :: s) :
    Text.Passes mark? t (written rest) := by
  have hbackslash : ∀ m ∈ marks, ('\\' : CodePoint) ∉ m.tail := fun m hm => (shape_of_marks m hm).2.1
  rcases hrest with hnil | ⟨s, hs⟩
  · -- nothing behind the text is for a mark like a backslash behind it
    exact passes_of_reach_eq (by rw [hnil, reach_backslash]; rfl) (passes_of_absent ht hbackslash [])
  · rw [hs]
    exact passes_of_absent ht hbackslash s

theorem isClear_toItems {source : Source} (h : source.IsProper) (hrest : IsClear rest)
    (hstart : written rest = [] ∨ ∃ s, written rest = ('\\' : CodePoint) :: s) : IsClear (source.toItems ++ rest) := by
  induction source generalizing rest with
  | text t => exact ⟨passes_of_isPlain h hstart, hrest⟩
  | matrix before e argument body after ihb iha =>
    obtain ⟨hbefore, he, hargument, hbracket, hbody, hafter⟩ := h
    have hbehind : IsClear (.closes e :: (after.toItems ++ rest)) := ⟨he, iha hafter hrest hstart⟩
    have hinside : IsClear (body.toItems ++ .closes e :: (after.toItems ++ rest)) := ihb hbody hbehind (.inr ⟨_, rfl⟩)
    have hopens : IsClear (.opens e argument :: (body.toItems ++ .closes e :: (after.toItems ++ rest))) := by
      refine ⟨he, ?_, hinside⟩
      cases argument with
      | some t => exact hargument t rfl
      | none =>
        show _ ≠ _
        rw [written_append, written_toItems]
        have hhead := hbracket rfl
        cases hwrite : body.write with
        | nil => exact fun hsome => absurd (Option.some.inj hsome) (by decide)
        | cons c s => rwa [hwrite] at hhead
    have hall : (matrix before e argument body after).toItems ++ rest =
        .text before :: .opens e argument :: (body.toItems ++ .closes e :: (after.toItems ++ rest)) := by simp [toItems]
    rw [hall]
    exact ⟨passes_of_isPlain hbefore (.inr ⟨_, rfl⟩), hopens⟩

/-- No more environments are open at a time than stand in one another. -/
theorem runs_toItems {source : Source} (hdepth : source.depth + opened.card ≤ n) (hrest : Runs n opened rest) :
    Runs n opened (source.toItems ++ rest) := by
  induction source generalizing opened rest with
  | text t => exact hrest
  | matrix before e argument body after ihb iha =>
    rw [depth] at hdepth
    have hafter : Runs n opened (after.toItems ++ rest) := iha (by omega) hrest
    have hcloses : Runs n (e ::ₘ opened) (.closes e :: (after.toItems ++ rest)) :=
      ⟨Multiset.mem_cons_self e opened, by rwa [Multiset.erase_cons_head]⟩
    have hbody : Runs n (e ::ₘ opened) (body.toItems ++ .closes e :: (after.toItems ++ rest)) :=
      ihb (by rw [Multiset.card_cons]; omega) hcloses
    have hall : (matrix before e argument body after).toItems ++ rest =
        .text before :: .opens e argument :: (body.toItems ++ .closes e :: (after.toItems ++ rest)) := by simp [toItems]
    rw [hall]
    exact ⟨by omega, hbody⟩

end Source

/-- Matrix environments that are nested up to sixteen in one another are all expanded, and nothing else is changed. -/
theorem expandMatrixEnvironments_write {source : Source} (hproper : source.IsProper) (hdepth : source.depth ≤ maxMatrixRounds) :
    expandMatrixEnvironments source.write = source.translate := by
  have hclear : IsClear source.toItems := List.append_nil source.toItems ▸ Source.isClear_toItems hproper trivial (.inl rfl)
  have hruns : Runs maxMatrixRounds 0 source.toItems := List.append_nil source.toItems ▸
    Source.runs_toItems (by simpa using hdepth) (show Runs maxMatrixRounds 0 [] from rfl)
  rw [expandMatrixEnvironments, ← source.written_toItems, expandMatricesFor_written hclear hruns, source.translated_toItems]

/-- A matrix in a matrix of the same name, beside starred cases with an argument and a bracket behind it. -/
def nestedMatrices : Source :=
  .matrix "A=" ⟨⟨"pmatrix", some ("(", ")")⟩, false⟩ none
    (.matrix "a&" ⟨⟨"pmatrix", some ("(", ")")⟩, false⟩ none (.text "b")
      (.matrix "&" ⟨⟨"cases", some ("\\\x7b", ".")⟩, true⟩ (some "r") (.text "[c") (.text "\\\\")))
    (.text "+1")

theorem expandMatrixEnvironments_nestedMatrices :
    nestedMatrices.IsProper ∧ nestedMatrices.depth ≤ maxMatrixRounds ∧
      nestedMatrices.write = "A=\\begin\x7bpmatrix\x7da&\\begin\x7bpmatrix\x7db\\end\x7bpmatrix\x7d&" ++
        ("\\begin\x7bcases*\x7d[r][c\\end\x7bcases*\x7d\\\\\\end\x7bpmatrix\x7d+1" : Text) ∧
      expandMatrixEnvironments nestedMatrices.write =
        "A=\\left(\\begin\x7bmatrix\x7da&\\left(\\begin\x7bmatrix\x7db\\end\x7bmatrix\x7d\\right)&" ++
          ("\\left\\\x7b\\begin\x7bmatrix\x7d[c\\end\x7bmatrix\x7d\\right.\\\\\\end\x7bmatrix\x7d\\right)+1" : Text) := by
  have hplain : ∀ t ∈ Text.ofStrings ["A=", "a&", "b", "&", "r", "[c", "\\\\", "+1"], Source.IsPlain t := by decide +kernel
  have henvironments : (⟨⟨"pmatrix", some ("(", ")")⟩, false⟩ : Environment) ∈ environments ∧
      (⟨⟨"cases", some ("\\\x7b", ".")⟩, true⟩ : Environment) ∈ environments := by decide +kernel
  have hcases : (Source.matrix "&" ⟨⟨"cases", some ("\\\x7b", ".")⟩, true⟩ (some "r") (.text "[c") (.text "\\\\")).IsProper :=
    ⟨hplain _ (by decide), henvironments.2, fun t ht => Option.some.inj ht ▸ ⟨by decide, hplain _ (by decide)⟩,
      fun hnone => (by cases hnone), hplain _ (by decide), hplain _ (by decide)⟩
  have hproper : nestedMatrices.IsProper :=
    ⟨hplain _ (by decide), henvironments.1, fun t ht => (by cases ht), fun _ => by decide,
      ⟨hplain _ (by decide), henvironments.1, fun t ht => (by cases ht), fun _ => by decide, hplain _ (by decide), hcases⟩,
      hplain _ (by decide)⟩
  have hdepth : nestedMatrices.depth ≤ maxMatrixRounds := by decide
  refine ⟨hproper, hdepth, by decide, ?_⟩
  rw [expandMatrixEnvironments_write hproper hdepth]
  decide

end EquationExport.Latex
