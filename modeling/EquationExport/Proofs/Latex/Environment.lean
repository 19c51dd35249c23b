import Mathlib.Data.Multiset.AddSub
import EquationExport.Proofs.Latex.Fusion
import EquationExport.Proofs.Text.Passing

/-!
# One round of expansion

A formula is taken apart into texts and the two ends of its matrix environments, so that the marks of an end, such as
`\begin{bmatrix}`, are read nowhere else. A round of expansion goes through these items: outside, the next opening is
replaced, and inside an environment so is the first end of the same name, while all that stands between is left for
later rounds. Environments that were nested may come to cross in this way. What each end is replaced by in the end does
not depend on the round.
-/

namespace EquationExport.Latex

deriving instance DecidableEq for MatrixKind

/-! ### Environments -/

/-- A matrix environment, with or without a star. -/
structure Environment where
  kind : MatrixKind
  starred : Bool
  deriving DecidableEq

namespace Environment

/-- The name that stands on both ends. -/
def name (e : Environment) : Text := if e.starred then e.kind.name ++ ("*" : Text) else e.kind.name

/-- What the opening is replaced by: the left delimiter, if there is one, and the opening of a plain matrix. -/
def leading (e : Environment) : Text := ('\\' : CodePoint) :: e.kind.front

/-- What the end is replaced by: the end of a plain matrix, and the right delimiter, if there is one. -/
def trailing (e : Environment) : Text := ('\\' : CodePoint) :: e.kind.rear

end Environment

/-- The environments that are expanded. -/
def environments : List Environment := matrixKinds.flatMap fun kind => [⟨kind, false⟩, ⟨kind, true⟩]

/-- The openings and the ends of the environments. -/
def marks : List Text := environments.flatMap fun e => [opening e.name, closing e.name]

/-- The mark at the front of a text, and what follows it. -/
def mark? (s : Text) : Option (Text × Text) := s.dropOneOf? marks

variable {e e' : Environment} {s t rest : Text}

theorem mark?_eq_none_iff : mark? s = none ↔ ∀ m ∈ marks, ¬ m <+: s := by
  rw [mark?]
  induction marks with
  | nil => simp [Text.dropOneOf?]
  | cons m ms ih =>
    rw [Text.dropOneOf?, List.forall_mem_cons, ← ih, ← Text.dropPrefix?_eq_none_iff]
    cases s.dropPrefix? m <;> simp

theorem name_mem (e : Environment) : e.name ∈ [e.kind.name, e.kind.name ++ ("*" : Text)] := by
  unfold Environment.name
  cases e.starred <;> simp

theorem exists_environment {kind : MatrixKind} {name : Text} (hkind : kind ∈ matrixKinds)
    (hname : name ∈ [kind.name, kind.name ++ ("*" : Text)]) : ∃ e ∈ environments, e.kind = kind ∧ e.name = name := by
  rcases List.mem_cons.1 hname with rfl | hname
  · exact ⟨⟨kind, false⟩, List.mem_flatMap.2 ⟨kind, hkind, by simp⟩, rfl, rfl⟩
  · rw [List.mem_singleton.1 hname]
    exact ⟨⟨kind, true⟩, List.mem_flatMap.2 ⟨kind, hkind, by simp⟩, rfl, rfl⟩

theorem kind_mem (he : e ∈ environments) : e.kind ∈ matrixKinds := by
  obtain ⟨kind, hkind, hmem⟩ := List.mem_flatMap.1 he
  rcases List.mem_cons.1 hmem with rfl | hmem
  · exact hkind
  · rwa [List.mem_singleton.1 hmem]

theorem opening_mem (he : e ∈ environments) : opening e.name ∈ marks := List.mem_flatMap.2 ⟨e, he, by simp⟩

theorem closing_mem (he : e ∈ environments) : closing e.name ∈ marks := List.mem_flatMap.2 ⟨e, he, by simp⟩

/-- Environments are told by their names, and a name ends at the brace. -/
theorem brace_not_mem_name : ∀ e ∈ environments, ('\x7d' : CodePoint) ∉ e.name := by decide +kernel

theorem eq_of_name_eq : ∀ e ∈ environments, ∀ e' ∈ environments, e.name = e'.name → e = e' := by decide +kernel

/-- A mark is a backslash and then neither a backslash nor a bracket. -/
theorem shape_of_marks : ∀ m ∈ marks, m.head? = some '\\' ∧ ('\\' : CodePoint) ∉ m.tail ∧ ('[' : CodePoint) ∉ m ∧
    (']' : CodePoint) ∉ m := by decide +kernel

theorem exists_of_mem_marks {m : Text} (hm : m ∈ marks) :
    ∃ tail, m = ('\\' : CodePoint) :: tail ∧ ('\\' : CodePoint) ∉ tail := by
  obtain ⟨hhead, htail, -⟩ := shape_of_marks m hm
  cases m with
  | nil => cases hhead
  | cons c tail =>
    obtain rfl := Option.some.inj hhead
    exact ⟨tail, rfl, htail⟩

/-- Two openings at one place are the same. -/
theorem eq_of_opening_front (he : e ∈ environments) (he' : e' ∈ environments) (h : opening e'.name <+: opening e.name ++ s) :
    e' = e := by
  obtain ⟨more, hmore⟩ := h
  simp only [opening, List.append_assoc] at hmore
  have hname := Text.append_cons_inj (List.append_cancel_left hmore) (brace_not_mem_name e' he') (brace_not_mem_name e he)
  exact eq_of_name_eq e' he' e he hname.1

/-- Two ends at one place are the same. -/
theorem eq_of_closing_front (he : e ∈ environments) (he' : e' ∈ environments) (h : closing e'.name <+: closing e.name ++ s) :
    e' = e := by
  obtain ⟨more, hmore⟩ := h
  simp only [closing, List.append_assoc] at hmore
  have hname := Text.append_cons_inj (List.append_cancel_left hmore) (brace_not_mem_name e' he') (brace_not_mem_name e he)
  exact eq_of_name_eq e' he' e he hname.1

/-! ### An environment at the front -/

/-- A search in a list in which one element alone can give a result. -/
theorem findSome?_eq_of_forall {f : α → Option β} {l : List α} {a : α} (ha : a ∈ l) (h : ∀ b ∈ l, f b ≠ none → b = a) :
    l.findSome? f = f a := by
  cases hfind : l.findSome? f with
  | none => exact (List.findSome?_eq_none_iff.1 hfind a ha).symm
  | some x =>
    obtain ⟨b, hb, hfb⟩ := List.exists_of_findSome?_eq_some hfind
    rw [← h b hb (by rw [hfb]; exact Option.some_ne_none x), hfb]

/-- Behind its opening an environment is expanded, if it has an end. -/
theorem expandMatrix?_opening (he : e ∈ environments) (after : Text) :
    expandMatrix? (opening e.name ++ after) =
      (body? e.name after).map fun (body, rest) => (e.kind.render body, rest) := by
  have hopens : Text.startsWith (opening e.name ++ after) "\\begin\x7b" = true :=
    startsWith_iff.2 ⟨e.name ++ ("\x7d" ++ after), by simp [opening]⟩
  have hskip : skipOpening? e.name (opening e.name ++ after) = some after := Text.dropPrefix?_append _ _
  have hother : ∀ kind ∈ matrixKinds, ∀ name ∈ [kind.name, kind.name ++ ("*" : Text)],
      skipOpening? name (opening e.name ++ after) ≠ none → kind = e.kind ∧ name = e.name := by
    intro kind hkind name hname hne
    obtain ⟨e', he', rfl, rfl⟩ := exists_environment hkind hname
    obtain rfl := eq_of_opening_front he he' (Text.dropPrefix?_isSome_iff.1 (Option.isSome_iff_ne_none.2 hne))
    exact ⟨rfl, rfl⟩
  rw [expandMatrix?, if_pos hopens, findSome?_eq_of_forall (kind_mem he), MatrixKind.expand?, findSome?_eq_of_forall (name_mem e)]
  · rw [hskip]
    rfl
  · intro name hname hne
    refine (hother e.kind (kind_mem he) name hname fun hnone => hne ?_).2
    rw [hnone]
    rfl
  · intro kind hkind hne
    obtain ⟨x, hx⟩ := Option.ne_none_iff_exists'.1 hne
    obtain ⟨name, hname, hsome⟩ := List.exists_of_findSome?_eq_some hx
    refine (hother kind hkind name hname fun hnone => ?_).1
    rw [hnone] at hsome
    cases hsome

/-- Nothing is expanded where no mark stands. -/
theorem expandMatrix?_of_mark? (h : mark? s = none) : expandMatrix? s = none := by
  cases hexpand : expandMatrix? s with
  | none => rfl
  | some change =>
    obtain ⟨put, rest⟩ := change
    obtain ⟨kind, hkind, name, hname, argument, body, rfl, -, -⟩ := exists_of_expandMatrix? hexpand
    obtain ⟨e, he, rfl, rfl⟩ := exists_environment hkind hname
    exact absurd (List.prefix_append _ _) (mark?_eq_none_iff.1 h _ (opening_mem he))

/-! ### Items -/

/-- A part of a formula. -/
inductive Item where
  | text (t : Text)
  /-- The opening of an environment, with the argument in square brackets that follows it. -/
  | opens (e : Environment) (argument : Option Text)
  | closes (e : Environment)

/-- An argument in its brackets. -/
def writeArgument : Option Text → Text
  | some t => "[" ++ t ++ ("]" : Text)
  | none => []

/-- An item as it is written. -/
def Item.write : Item → Text
  | .text t => t
  | .opens e argument => opening e.name ++ writeArgument argument
  | .closes e => closing e.name

/-- What is put in the place of an item. -/
def Item.translate : Item → Text
  | .text t => t
  | .opens e _ => e.leading
  | .closes e => e.trailing

/-- Items as they are written one after the other. -/
def written (items : List Item) : Text := items.flatMap Item.write

/-- What is put in the place of items. -/
def translated (items : List Item) : Text := items.flatMap Item.translate

/-- What a round of expansion makes of items, outside or inside an environment that is being expanded. -/
def expandItems : Option Environment → List Item → List Item
  | _, [] => []
  | none, .opens e _ :: rest => .text e.leading :: expandItems (some e) rest
  | none, item :: rest => item :: expandItems none rest
  | some e, .closes e' :: rest =>
    if e' = e then .text e.trailing :: expandItems none rest else .closes e' :: expandItems (some e) rest
  | some e, item :: rest => item :: expandItems (some e) rest

@[simp] theorem written_nil : written [] = [] := rfl

@[simp] theorem written_cons (item : Item) (items : List Item) : written (item :: items) = item.write ++ written items := rfl

@[simp] theorem written_append (a b : List Item) : written (a ++ b) = written a ++ written b := List.flatMap_append

@[simp] theorem translated_nil : translated [] = [] := rfl

@[simp] theorem translated_cons (item : Item) (items : List Item) :
    translated (item :: items) = item.translate ++ translated items := rfl

@[simp] theorem translated_append (a b : List Item) : translated (a ++ b) = translated a ++ translated b := List.flatMap_append

theorem expandItems_text (inside : Option Environment) (t : Text) (rest : List Item) :
    expandItems inside (.text t :: rest) = .text t :: expandItems inside rest := by cases inside <;> rfl

/-- A round does not change what the items are replaced by. -/
theorem translated_expandItems (inside : Option Environment) (items : List Item) :
    translated (expandItems inside items) = translated items := by
  induction items generalizing inside with
  | nil => cases inside <;> rfl
  | cons item rest ih =>
    cases inside with
    | none => cases item <;> simp [expandItems, Item.translate, ih]
    | some e =>
      cases item with
      | text | opens => simp [expandItems, ih]
      | closes e' =>
        rw [expandItems]
        split
        · next heq => simp [heq, Item.translate, ih]
        · simp [ih]

/-- Inside an environment a round goes up to the first end of its name. -/
theorem expandItems_split {body : List Item} (hbody : .closes e ∉ body) (behind : List Item) :
    expandItems (some e) (body ++ .closes e :: behind) = body ++ .text e.trailing :: expandItems none behind := by
  induction body with
  | nil => simp [expandItems]
  | cons item body ih =>
    have hrest := ih fun hmem => hbody (List.mem_cons_of_mem _ hmem)
    cases item with
    | text | opens => simp [expandItems, hrest]
    | closes e' =>
      have hne : e' ≠ e := by
        rintro rfl
        exact hbody List.mem_cons_self
      simp [expandItems, hne, hrest]

/-! ### Marks stand at the ends of environments alone -/

/-- No mark is read in a text, an argument ends at its bracket, and what follows an opening is not taken for an argument. -/
def IsClear : List Item → Prop
  | [] => True
  | .text t :: rest => Text.Passes mark? t (written rest) ∧ IsClear rest
  | .opens e argument :: rest =>
    e ∈ environments ∧
      (match argument with
      | some t => (']' : CodePoint) ∉ t ∧ ∀ m ∈ marks, ¬ m <:+: t
      | none => (written rest).head? ≠ some '[') ∧
      IsClear rest
  | .closes e :: rest => e ∈ environments ∧ IsClear rest

theorem IsClear.of_append {a b : List Item} (h : IsClear (a ++ b)) : IsClear b := by
  induction a with
  | nil => exact h
  | cons item a ih =>
    cases item with
    | text t => exact ih h.2
    | opens e argument => exact ih h.2.2
    | closes e => exact ih h.2

theorem mark?_cons_of_ne {c : CodePoint} (hc : c ≠ '\\') (s : Text) : mark? (c :: s) = none := by
  refine mark?_eq_none_iff.2 fun m hm hprefix => ?_
  obtain ⟨tail, rfl, -⟩ := exists_of_mem_marks hm
  exact hc (List.cons_prefix_cons.1 hprefix).1.symm

/-- In a text without marks none is read, whatever follows a character that stands inside no mark. -/
theorem passes_of_absent (h : ∀ m ∈ marks, ¬ m <:+: t) {c : CodePoint} (hc : ∀ m ∈ marks, c ∉ m.tail) (s : Text) :
    Text.Passes mark? t (c :: s) := by
  intro u hu hsuffix
  refine mark?_eq_none_iff.2 fun m hm hprefix => h m hm (List.IsInfix.trans (List.IsPrefix.isInfix ?_) hsuffix.isInfix)
  have hnot := hc m hm
  obtain ⟨tail, rfl, -⟩ := exists_of_mem_marks hm
  cases u with
  | nil => exact absurd rfl hu
  | cons d u =>
    obtain ⟨rfl, htail⟩ := List.cons_prefix_cons.1 hprefix
    exact List.cons_prefix_cons.2 ⟨rfl, Text.prefix_of_prefix_append_cons hnot htail⟩

/-- No mark is read in an argument. -/
theorem passes_writeArgument {argument : Option Text} (h : ∀ t ∈ argument, ∀ m ∈ marks, ¬ m <:+: t) (s : Text) :
    Text.Passes mark? (writeArgument argument) s := by
  cases argument with
  | none => exact Text.passes_nil
  | some t =>
    have hbracket : ∀ m ∈ marks, (']' : CodePoint) ∉ m.tail := fun m hm hmem =>
      (shape_of_marks m hm).2.2.2 (List.mem_of_mem_tail hmem)
    have hlast : Text.Passes mark? ("]" : Text) s := Text.passes_cons.2 ⟨mark?_cons_of_ne (by decide) _, Text.passes_nil⟩
    have hinside : Text.Passes mark? (t ++ ("]" : Text)) s :=
      Text.passes_append.2 ⟨passes_of_absent (h t rfl) hbracket s, hlast⟩
    have hargument : writeArgument (some t) = ('[' : CodePoint) :: (t ++ ("]" : Text)) := by simp [writeArgument, Text.ofString]
    rw [hargument]
    exact Text.passes_cons.2 ⟨mark?_cons_of_ne (by decide) _, hinside⟩

/-- What is put in the place of an opening or an end holds no mark, whatever follows. -/
theorem passes_replacement (he : e ∈ environments) (s : Text) :
    Text.Passes mark? e.leading s ∧ Text.Passes mark? e.trailing s := by
  have hapart : ∀ e ∈ environments, ∀ t ∈ [e.leading, e.trailing], ∀ u ∈ t.tails, u ≠ [] →
      ∀ m ∈ marks, ¬ m <+: u ∧ ¬ u <+: m := by decide +kernel
  have hpasses : ∀ t ∈ [e.leading, e.trailing], Text.Passes mark? t s := by
    intro t ht u hu hsuffix
    refine mark?_eq_none_iff.2 fun m hm hprefix => ?_
    obtain ⟨hmark, hpart⟩ := hapart e he t ht u ((List.mem_tails _ _).2 hsuffix) hu m hm
    rcases List.prefix_or_prefix_of_prefix hprefix (List.prefix_append u s) with hle | hle
    · exact hmark hle
    · exact hpart hle
  exact ⟨hpasses _ (by simp), hpasses _ (by simp)⟩

/-! ### What follows a text, up to the next backslash -/

/-- What may belong to a mark that starts before the text: all up to the next backslash. -/
def reach (s : Text) : Text := s.takeWhile (· != '\\')

@[simp] theorem reach_backslash (s : Text) : reach (('\\' : CodePoint) :: s) = [] := List.takeWhile_cons_of_neg (by simp)

theorem reach_cons_of_ne {c : CodePoint} (hc : c ≠ '\\') (s : Text) : reach (c :: s) = c :: reach s :=
  List.takeWhile_cons_of_pos (by simpa using hc)

theorem reach_append (u s : Text) : reach (u ++ s) = reach (u ++ reach s) := by
  induction u with
  | nil =>
    have hall : ∀ c ∈ reach s, (c != '\\') = true := List.all_eq_true.1 List.all_takeWhile
    exact (List.takeWhile_eq_self_iff.2 hall).symm
  | cons c u ih =>
    by_cases hc : c = '\\'
    · rw [hc, List.cons_append, List.cons_append, reach_backslash, reach_backslash]
    · rw [List.cons_append, List.cons_append, reach_cons_of_ne hc, reach_cons_of_ne hc, ih]

theorem prefix_iff_prefix_reach {tail : Text} (h : ('\\' : CodePoint) ∉ tail) : tail <+: s ↔ tail <+: reach s := by
  constructor
  · rintro ⟨more, rfl⟩
    exact ⟨reach more, (List.takeWhile_append_of_pos fun c hc => by simpa using fun heq : c = '\\' => h (heq ▸ hc)).symm⟩
  · exact fun hprefix => hprefix.trans (List.takeWhile_prefix _)

/-- Where a mark is read depends on what may belong to it. -/
theorem passes_of_reach_eq (h : reach s = reach rest) (ht : Text.Passes mark? t s) : Text.Passes mark? t rest := by
  intro u hu hsuffix
  have hnone := mark?_eq_none_iff.1 (ht u hu hsuffix)
  refine mark?_eq_none_iff.2 fun m hm hprefix => hnone m hm ?_
  obtain ⟨tail, rfl, htail⟩ := exists_of_mem_marks hm
  cases u with
  | nil => exact absurd rfl hu
  | cons c u =>
    obtain ⟨rfl, hbehind⟩ := List.cons_prefix_cons.1 hprefix
    have hreach : reach (u ++ rest) = reach (u ++ s) := by rw [reach_append, ← h, ← reach_append]
    rw [List.cons_append]
    refine List.cons_prefix_cons.2 ⟨rfl, (prefix_iff_prefix_reach htail).2 ?_⟩
    rw [← hreach]
    exact (prefix_iff_prefix_reach htail).1 hbehind

theorem head?_reach : (reach s).head? = some '[' ↔ s.head? = some '[' := by
  cases s with
  | nil => rfl
  | cons c s =>
    by_cases hc : c = '\\'
    · subst hc
      have hne : ('\\' : CodePoint) ≠ '[' := by decide
      simp [hne]
    · rw [reach_cons_of_ne hc, List.head?_cons, List.head?_cons]

theorem reach_opening (name s : Text) : reach (opening name ++ s) = [] := reach_backslash _

theorem reach_closing (name s : Text) : reach (closing name ++ s) = [] := reach_backslash _

/-- A round puts something that starts with a backslash in the place of what starts with a backslash. -/
theorem reach_written_expandItems (inside : Option Environment) (items : List Item) :
    reach (written (expandItems inside items)) = reach (written items) := by
  induction items generalizing inside with
  | nil => cases inside <;> rfl
  | cons item rest ih =>
    cases item with
    | text t =>
      rw [expandItems_text, written_cons, written_cons, reach_append, ih, ← reach_append]
    | opens e argument =>
      have hopening : reach (written (.opens e argument :: rest)) = [] := by
        rw [written_cons, Item.write, List.append_assoc, reach_opening]
      cases inside with
      | none => exact (reach_backslash _).trans hopening.symm
      | some e' =>
        rw [hopening, expandItems, written_cons, Item.write, List.append_assoc, reach_opening]
        simp
    | closes e =>
      have hclosing : ∀ items, reach (written (.closes e :: items)) = [] := fun items => reach_closing e.name _
      rw [hclosing]
      cases inside with
      | none => exact hclosing _
      | some e' =>
        rw [expandItems]
        split
        · exact reach_backslash _
        · exact hclosing _

/-- A round leaves no new marks. -/
theorem isClear_expandItems {inside : Option Environment} (hinside : ∀ e ∈ inside, e ∈ environments) {items : List Item}
    (h : IsClear items) : IsClear (expandItems inside items) := by
  induction items generalizing inside with
  | nil => cases inside <;> trivial
  | cons item rest ih =>
    have hreach := fun inside => (reach_written_expandItems inside rest).symm
    cases item with
    | text t =>
      rw [expandItems_text]
      exact ⟨passes_of_reach_eq (hreach inside) h.1, ih hinside h.2⟩
    | opens e argument =>
      obtain ⟨he, hargument, hrest⟩ := h
      cases inside with
      | none => exact ⟨(passes_replacement he _).1, ih (fun e' he' => Option.some.inj he' ▸ he) hrest⟩
      | some e' =>
        refine ⟨he, ?_, ih hinside hrest⟩
        cases argument with
        | some t => exact hargument
        | none =>
          show _ ≠ _
          rw [Ne, ← head?_reach, ← hreach, head?_reach]
          exact hargument
    | closes e =>
      obtain ⟨he, hrest⟩ := h
      cases inside with
      | none => exact ⟨he, ih hinside hrest⟩
      | some e' =>
        rw [expandItems]
        split
        · next heq =>
          subst heq
          exact ⟨(passes_replacement he _).2, ih (fun _ hnone => by cases hnone) hrest⟩
        · exact ⟨he, ih hinside hrest⟩

/-! ### Items as they are read -/

/-- Behind its backslash no mark is recognised in a mark. -/
theorem passes_mark {found? : Text → Option α} (hfound : ∀ (c : CodePoint) (u : Text), c ≠ '\\' → found? (c :: u) = none) {m : Text} (hm : m ∈ marks)
    (hfirst : found? (m ++ s) = none) : Text.Passes found? m s := by
  obtain ⟨tail, rfl, htail⟩ := exists_of_mem_marks hm
  refine Text.passes_cons.2 ⟨hfirst, fun u hu hsuffix => ?_⟩
  cases u with
  | nil => exact absurd rfl hu
  | cons c u =>
    refine hfound c _ ?_
    rintro rfl
    exact htail (hsuffix.subset List.mem_cons_self)

end EquationExport.Latex
