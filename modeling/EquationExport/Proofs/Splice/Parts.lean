import EquationExport.Proofs.Splice.Place

/-!
# A document in parts

Putting all equations in their places at once is a single pass over the document: where a run stands that holds
a token, the markup of the token's equation is written, and everything else is copied. The pass divides the
document into parts, each of them a character that is kept or a run that is replaced. The document after some
of the equations have been spliced is written from the same parts.
-/

namespace EquationExport.Splice

open EquationExport.Text

/-! ### One pass -/

/-- The rule that puts the markup of an equation in place of the run that holds its token. -/
def placing (items : List Replacement) : Text.Rule := fun _ s => do
  let (front, after) ← s.breakOn? "</w:r>"
  let run := front ++ ("</w:r>" : Text)
  if IsRun run then
    let item ← items.find? fun item => run.contains item.token
    return (markup item, after)
  else none

/-- The document with its namespaces declared and all equations in their places, in a single pass. -/
def spliceAtOnce (document : Text) (items : List Replacement) : Text :=
  (declareMathNamespace document).substitute (placing items)

theorem IsRun.breakOn?_eq {run : Text} (h : IsRun run) (after : Text) :
    ∃ body, run = body ++ ("</w:r>" : Text) ∧ (run ++ after).breakOn? "</w:r>" = some (body, after) := by
  obtain ⟨body, hrun, hbody⟩ := h.exists_eq_append
  refine ⟨body, hrun, breakOn?_eq_some_iff.2 ⟨by rw [← hrun], ?_⟩⟩
  rw [hbody]
  exact h.closes_append after

/-- Where the rule applies, and what it puts there. -/
theorem placing_eq_some_iff {items : List Replacement} {before : Option CodePoint} {s put after : Text} :
    placing items before s = some (put, after) ↔ ∃ run item, s = run ++ after ∧ IsRun run ∧
      items.find? (fun item => run.contains item.token) = some item ∧ put = markup item := by
  constructor
  · intro h
    obtain ⟨⟨front, rest⟩, hbreak, h⟩ := Option.bind_eq_some_iff.1 h
    simp only at h
    split at h
    · next hrun =>
      obtain ⟨item, hfind, h⟩ := Option.bind_eq_some_iff.1 h
      cases h
      exact ⟨_, item, (breakOn?_eq_some_iff.1 hbreak).1, hrun, hfind, rfl⟩
    · cases h
  · rintro ⟨run, item, rfl, hrun, hfind, rfl⟩
    obtain ⟨body, hbody, hbreak⟩ := hrun.breakOn?_eq after
    simp only [placing, hbreak, Option.bind_eq_bind, Option.bind_some, ← hbody, if_pos hrun, hfind]
    rfl

/-- Two runs at the front of a text are the same. -/
theorem IsRun.unique {run run' after after' : Text} (h : IsRun run) (h' : IsRun run')
    (heq : run ++ after = run' ++ after') : run = run' ∧ after = after' := by
  have hfirst := h.closes_append after
  rw [heq] at hfirst
  have hstop := hfirst.unique (h'.closes_append after')
  have hlength := h.length_eq
  have hlength' := h'.length_eq
  exact List.append_inj heq (by omega)

/-! ### Parts -/

/-- A part of a document. -/
inductive Part where
  /-- A character that is kept. -/
  | kept (c : CodePoint)
  /-- A run, and the equation whose token it holds. -/
  | slot (run : Text) (item : Replacement)

/-- A part as it is written once some equations have been spliced. -/
def Part.write (done : List Replacement) : Part → Text
  | .kept c => [c]
  | .slot run item => if item ∈ done then markup item else run

/-- A document in parts, written once some equations have been spliced. -/
def written (done : List Replacement) (parts : List Part) : Text := parts.flatMap (·.write done)

@[simp] theorem written_nil (done : List Replacement) : written done [] = [] := rfl

@[simp] theorem written_cons (done : List Replacement) (part : Part) (parts : List Part) :
    written done (part :: parts) = part.write done ++ written done parts := rfl

@[simp] theorem written_append (done : List Replacement) (front rest : List Part) :
    written done (front ++ rest) = written done front ++ written done rest := List.flatMap_append

/-- What is written depends on the equations only that have a place in it. -/
theorem written_congr {done done' : List Replacement} {parts : List Part}
    (h : ∀ run item, .slot run item ∈ parts → (item ∈ done ↔ item ∈ done')) :
    written done parts = written done' parts := by
  refine List.flatMap_congr fun part hpart => ?_
  cases part with
  | kept c => rfl
  | slot run item => simp only [Part.write, h run item hpart]

/-- The parts into which the single pass divides a text. -/
inductive Divided (items : List Replacement) : Text → List Part → Prop where
  | nil : Divided items [] []
  /-- No run that holds a token stands here. -/
  | kept {c : CodePoint} {s : Text} {parts : List Part} (h : placing items none (c :: s) = none) :
      Divided items s parts → Divided items (c :: s) (.kept c :: parts)
  | slot {run after : Text} {item : Replacement} {parts : List Part} (h : IsRun run)
      (hitem : items.find? (fun item => run.contains item.token) = some item) :
      Divided items after parts → Divided items (run ++ after) (.slot run item :: parts)

theorem exists_divided (items : List Replacement) (s : Text) : ∃ parts, Divided items s parts := by
  induction hn : s.length using Nat.strong_induction_on generalizing s with
  | _ n ih =>
    cases s with
    | nil => exact ⟨[], .nil⟩
    | cons c s =>
      cases hp : placing items none (c :: s) with
      | none =>
        obtain ⟨parts, hparts⟩ := ih s.length (by simp [← hn]) s rfl
        exact ⟨_, .kept hp hparts⟩
      | some found =>
        obtain ⟨run, item, hs, hrun, hitem, -⟩ := placing_eq_some_iff.1 hp
        have hlength := congrArg List.length hs
        have hpos := hrun.length_eq
        rw [List.length_append] at hlength
        obtain ⟨parts, hparts⟩ := ih found.2.length (by omega) found.2 rfl
        rw [hs]
        exact ⟨_, .slot hrun hitem hparts⟩

namespace Divided

variable {items : List Replacement} {s : Text} {parts : List Part}

/-- Before anything is spliced, the parts are the text. -/
theorem written_eq (h : Divided items s parts) : written [] parts = s := by
  induction h with
  | nil => rfl
  | kept _ _ ih => rw [written_cons, ih]; rfl
  | slot _ _ _ ih => rw [written_cons, ih]; rfl

/-- A run among the parts holds the token of its equation. -/
theorem of_mem_slot (h : Divided items s parts) {run : Text} {item : Replacement} (hmem : .slot run item ∈ parts) :
    IsRun run ∧ item ∈ items ∧ item.token <:+: run := by
  induction h with
  | nil => cases hmem
  | kept _ _ ih => exact ih ((List.mem_cons.1 hmem).resolve_left nofun)
  | slot hrun hitem _ ih =>
    rcases List.mem_cons.1 hmem with heq | hmem
    · cases heq
      have hholds := List.find?_some (p := fun item : Replacement => _) hitem
      exact ⟨hrun, List.mem_of_find?_eq_some hitem, contains_iff.1 hholds⟩
    · exact ih hmem

/-- The single pass writes the markup of every equation. -/
theorem substituteFrom_eq (h : Divided items s parts) (before : Option CodePoint) :
    Text.substituteFrom (placing items) before 0 s = written items parts := by
  induction h generalizing before with
  | nil => rfl
  | kept hp _ ih => rw [Text.substituteFrom, show placing items before _ = none from hp, ih]; rfl
  | @slot run after item parts hrun hitem hparts ih =>
    obtain ⟨rest, rfl⟩ := hrun.exists_cons
    have hp : placing items before (CodePoint.ofChar '<' :: (rest ++ after)) = some (markup item, after) :=
      placing_eq_some_iff.2 ⟨_, item, rfl, hrun, hitem, rfl⟩
    rw [List.cons_append]
    obtain ⟨before', hskip⟩ := exists_substituteFrom_drop (placing items) (some (CodePoint.ofChar '<'))
      (rest ++ after) ((rest ++ after).length - after.length)
    have hdrop : (rest ++ after).drop ((rest ++ after).length - after.length) = after := by
      rw [List.length_append, Nat.add_sub_cancel, List.drop_left]
    rw [Text.substituteFrom, hp]
    show markup item ++ Text.substituteFrom _ _ _ _ = _
    rw [hskip, hdrop, ih, written_cons, Part.write, if_pos (List.mem_of_find?_eq_some hitem)]

/-- Every run that holds the token of an equation is among the parts. -/
theorem slot_mem (h : Divided items s parts) {before run after : Text} {item : Replacement}
    (hs : s = before ++ (run ++ after)) (hrun : IsRun run)
    (hitem : items.find? (fun item => run.contains item.token) = some item) : .slot run item ∈ parts := by
  induction h generalizing before with
  | nil =>
    obtain ⟨rest, rfl⟩ := hrun.exists_cons
    simp at hs
  | @kept c s parts hp _ ih =>
    cases before with
    | nil =>
      have hfound : placing items none (run ++ after) = some (markup item, after) :=
        placing_eq_some_iff.2 ⟨run, item, rfl, hrun, hitem, rfl⟩
      rw [List.nil_append] at hs
      rw [hs, hfound] at hp
      cases hp
    | cons b before =>
      rw [List.cons_append, List.cons.injEq] at hs
      exact List.mem_cons_of_mem _ (ih hs.2)
  | @slot run' after' item' parts hrun' hitem' _ ih =>
    rcases Nat.lt_or_ge before.length run'.length with hlt | hge
    · -- the run cannot open inside the other one
      have hopen : OpensRunAt (run' ++ after') before.length := by
        rw [hs]
        exact (hrun.opens_append after).imp
          (fun h => (standsAt_append_right (Nat.le_refl _)).2 (by simpa using h))
          fun h => (standsAt_append_right (Nat.le_refl _)).2 (by simpa using h)
      obtain rfl := List.eq_nil_of_length_eq_zero ((hrun'.opens_append_cases hopen).resolve_right (by omega))
      obtain ⟨rfl, rfl⟩ := hrun'.unique hrun hs
      rw [hitem] at hitem'
      cases hitem'
      exact List.mem_cons_self
    · have hbefore : before = run' ++ before.drop run'.length := by
        have hfront : run' <+: before :=
          List.prefix_of_prefix_length_le (List.prefix_append run' after') (hs ▸ List.prefix_append before _) hge
        obtain ⟨rest, rfl⟩ := hfront
        simp
      rw [hbefore, List.append_assoc, List.append_cancel_left_eq] at hs
      exact List.mem_cons_of_mem _ (ih hs)

end Divided

end EquationExport.Splice
