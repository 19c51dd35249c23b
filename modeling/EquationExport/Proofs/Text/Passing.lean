import EquationExport.Proofs.Text.Occurrence
import EquationExport.Proofs.Text.Rewriting

/-!
# Search and substitution over joined texts

A part of a text is passed if nothing is recognised at any of its places, whatever follows the part counted in. A
search goes on behind such a part, and a substitution keeps it. Where something is recognised, what it reaches over is
replaced, and the substitution goes on behind it. With these laws the two are followed along a text that is put
together from parts.
-/

namespace EquationExport.Text

variable {found? : Text → Option α} {skip? : Text → Option Text} {change? : Text → Option (Text × Text)}
  {c : CodePoint} {s t u old put rest : Text}

/-! ### Parts in which nothing is recognised -/

/-- Nothing is recognised at any place of `t` with `s` behind it. -/
def Passes (found? : Text → Option α) (t s : Text) : Prop := ∀ u, u ≠ [] → u <:+ t → found? (u ++ s) = none

theorem passes_nil : Passes found? [] s := fun _ hu hsuffix => absurd (List.suffix_nil.1 hsuffix) hu

theorem passes_cons : Passes found? (c :: t) s ↔ found? (c :: (t ++ s)) = none ∧ Passes found? t s := by
  constructor
  · intro h
    exact ⟨h (c :: t) (List.cons_ne_nil _ _) (List.suffix_refl _), fun u hu hsuffix => h u hu (hsuffix.trans (List.suffix_cons _ _))⟩
  · rintro ⟨hfirst, hrest⟩ u hu hsuffix
    rcases List.suffix_cons_iff.1 hsuffix with rfl | hsuffix
    · exact hfirst
    · exact hrest u hu hsuffix

theorem passes_append : Passes found? (t ++ u) s ↔ Passes found? t (u ++ s) ∧ Passes found? u s := by
  induction t with
  | nil => simp [passes_nil]
  | cons c t ih => rw [List.cons_append, passes_cons, ih, passes_cons, List.append_assoc, and_assoc]

/-- What is recognised in fewer places is passed all the more. -/
theorem Passes.mono {found'? : Text → Option β} (h : Passes found? t s)
    (himp : ∀ u, found? u = none → found'? u = none) : Passes found'? t s := fun u hu hsuffix => himp _ (h u hu hsuffix)

/-- A search goes on behind a part that is passed. -/
theorem Passes.breakAt? (h : Passes found? t s) :
    breakAt? found? (t ++ s) = (breakAt? found? s).map fun (before, a) => (t ++ before, a) := by
  induction t with
  | nil =>
    rw [List.nil_append]
    exact Option.map_id_fun' ▸ rfl
  | cons c t ih =>
    obtain ⟨hfirst, hrest⟩ := passes_cons.1 h
    rw [List.cons_append, Text.breakAt?, hfirst, ih hrest]
    cases Text.breakAt? found? s <;> rfl

/-- The first place at which something is recognised, and what is recognised there. -/
theorem breakAt?_eq_some_iff {x : α} :
    breakAt? found? s = some (t, x) ↔ ∃ after, s = t ++ after ∧ found? after = some x ∧ Passes found? t after := by
  constructor
  · intro h
    obtain ⟨after, rfl, hafter, hfirst⟩ := breakAt?_eq_some h
    refine ⟨after, rfl, hafter, fun u hu hsuffix => ?_⟩
    obtain ⟨front, rfl⟩ := hsuffix
    have hlt : front.length < (front ++ u).length := by
      have hpos := List.length_pos_of_ne_nil hu
      rw [List.length_append]
      omega
    simpa [List.drop_append] using hfirst front.length hlt
  · rintro ⟨after, rfl, hafter, hpasses⟩
    rw [hpasses.breakAt?, breakAt?_of_found hafter]
    simp

/-! ### Substitution -/

theorem substituteFrom_before (change? : Text → Option (Text × Text)) (before before' : Option CodePoint) (skip : Nat)
    (s : Text) : substituteFrom (fun _ => change?) before skip s = substituteFrom (fun _ => change?) before' skip s := by
  induction s generalizing before before' skip with
  | nil => cases skip <;> rfl
  | cons c s ih =>
    cases skip with
    | zero => rfl
    | succ skip => exact ih (some c) (some c) skip

theorem substitute_cons (h : change? (c :: s) = none) :
    Text.substitute (c :: s) (fun _ => change?) = c :: s.substitute fun _ => change? := by
  rw [Text.substitute, substituteFrom, h]
  exact congrArg (c :: ·) (substituteFrom_before _ _ _ _ _)

/-- A substitution keeps a part that is passed. -/
theorem Passes.substitute (h : Passes change? t s) :
    (t ++ s).substitute (fun _ => change?) = t ++ s.substitute fun _ => change? := by
  induction t with
  | nil => rfl
  | cons c t ih =>
    obtain ⟨hfirst, hrest⟩ := passes_cons.1 h
    rw [List.cons_append, substitute_cons hfirst, ih hrest, List.cons_append]

/-- A substitution puts something in the place of what is recognised, and goes on behind it. -/
theorem substitute_append (hold : old ≠ []) (h : change? (old ++ rest) = some (put, rest)) :
    (old ++ rest).substitute (fun _ => change?) = put ++ rest.substitute fun _ => change? := by
  cases old with
  | nil => exact absurd rfl hold
  | cons c old =>
    have hskip : (old ++ rest).length - rest.length = old.length := by simp
    rw [List.cons_append] at h
    rw [List.cons_append, Text.substitute, substituteFrom, h]
    dsimp only
    rw [hskip, substituteFrom_skip]
    exact congrArg (put ++ ·) (substituteFrom_before _ _ _ _ _)

theorem Passes.replacing (h : Passes skip? t s) :
    (t ++ s).substitute (Text.replacing skip? put) = t ++ s.substitute (Text.replacing skip? put) :=
  have hrule : Passes (fun s => (skip? s).map (put, ·)) t s := h.mono fun u hu => by rw [hu]; rfl
  hrule.substitute

theorem substitute_replacing_append (hold : old ≠ []) (h : skip? (old ++ rest) = some rest) :
    (old ++ rest).substitute (Text.replacing skip? put) = put ++ rest.substitute (Text.replacing skip? put) :=
  have hrule : (skip? (old ++ rest)).map (put, ·) = some (put, rest) := by rw [h]; rfl
  substitute_append hold hrule

/-! ### Deletion across a seam -/

/-- A deletion that goes through a text from the left takes `old` away behind `front`. -/
inductive Deletes (skip? : Text → Option Text) : Text → Text → Text → Text → Prop where
  | here {old rest : Text} : old ≠ [] → skip? (old ++ rest) = some rest → Deletes skip? (old ++ rest) [] old rest
  /-- Nothing is recognised at the front, and the code point there stays. -/
  | pass {c : CodePoint} {s front old rest : Text} : skip? (c :: s) = none → Deletes skip? s front old rest →
    Deletes skip? (c :: s) (c :: front) old rest
  /-- Something else has been taken away from the front. -/
  | behind {gone s front old rest : Text} : gone ≠ [] → skip? (gone ++ s) = some s → Deletes skip? s front old rest →
    Deletes skip? (gone ++ s) (gone ++ front) old rest

theorem Deletes.eq_append {front : Text} (h : Deletes skip? s front old rest) : s = front ++ (old ++ rest) := by
  induction h with
  | here => rfl
  | pass _ _ ih => rw [ih, List.cons_append]
  | behind _ _ _ ih => rw [ih, List.append_assoc]

theorem Deletes.skip?_eq {front : Text} (h : Deletes skip? s front old rest) : skip? (old ++ rest) = some rest := by
  induction h with
  | here _ hskip => exact hskip
  | pass _ _ ih => exact ih
  | behind _ _ _ ih => exact ih

theorem substitute_deleting_cons (h : skip? (c :: s) = none) :
    Text.substitute (c :: s) (deleting skip?) = c :: Text.substitute s (deleting skip?) :=
  have hrule : (skip? (c :: s)).map (([] : Text), ·) = none := by rw [h]; rfl
  substitute_cons hrule

/--
Deletion goes on at a seam as from the front of a text, unless something that is taken away reaches over it. What is taken
away is taken to be told by itself.
-/
theorem substitute_deleting_append {kind : Text → Prop}
    (hskip : ∀ s rest, skip? s = some rest ↔ ∃ old, kind old ∧ s = old ++ rest) (hkind : ¬kind []) (s t : Text) :
    (s ++ t).substitute (deleting skip?) = s.substitute (deleting skip?) ++ t.substitute (deleting skip?) ∨
      ∃ front old rest, Deletes skip? (s ++ t) front old rest ∧ front.length < s.length ∧
        s.length < front.length + old.length := by
  -- A step passes a code point or takes a part away, so the induction is on the length.
  induction hn : s.length using Nat.strongRecOn generalizing s with
  | _ n ih =>
    subst hn
    cases s with
    | nil => exact .inl rfl
    | cons c s =>
      cases hfront : skip? (c :: s ++ t) with
      | none =>
        have hshort : skip? (c :: s) = none := by
          refine Option.eq_none_iff_forall_ne_some.2 fun rest hsome => ?_
          obtain ⟨old, hold, heq⟩ := (hskip _ _).1 hsome
          have hlong := (hskip (c :: s ++ t) (rest ++ t)).2 ⟨old, hold, by rw [heq, List.append_assoc]⟩
          rw [hfront] at hlong
          cases hlong
        rcases ih s.length (by simp) s rfl with heq | ⟨front, old, rest, hdeletes, hbefore, hbehind⟩
        · refine .inl ?_
          rw [List.cons_append] at hfront ⊢
          rw [substitute_deleting_cons hfront, substitute_deleting_cons hshort, heq, List.cons_append]
        · refine .inr ⟨c :: front, old, rest, .pass hfront hdeletes, ?_, ?_⟩
          · simpa using hbefore
          · simp only [List.length_cons]
            omega
      | some rest =>
        obtain ⟨old, hold, heq⟩ := (hskip _ _).1 hfront
        have hne : old ≠ [] := by
          rintro rfl
          exact hkind hold
        have hrecognised : ∀ rest, skip? (old ++ rest) = some rest := fun rest => (hskip _ _).2 ⟨old, hold, rfl⟩
        by_cases hover : old.length ≤ (c :: s).length
        · -- What is taken away ends in front of the seam, or at it.
          obtain ⟨s', hs⟩ : old <+: c :: s :=
            List.prefix_of_prefix_length_le ⟨rest, heq.symm⟩ (List.prefix_append _ _) hover
          obtain rfl : s' ++ t = rest := by
            rw [← hs, List.append_assoc] at heq
            exact List.append_cancel_left heq
          have hpos := List.length_pos_of_ne_nil hne
          have hlength := congrArg List.length hs
          rw [List.length_append] at hlength
          rcases ih s'.length (by omega) s' rfl with heq | ⟨front, old', rest, hdeletes, hbefore, hbehind⟩
          · refine .inl ?_
            rw [← hs, List.append_assoc]
            unfold deleting at heq ⊢
            rw [substitute_replacing_append hne (hrecognised _), substitute_replacing_append hne (hrecognised _), heq]
            rfl
          · refine .inr ⟨old ++ front, old', rest, ?_, ?_, ?_⟩
            · rw [← hs, List.append_assoc]
              exact .behind hne (hrecognised _) hdeletes
            · rw [List.length_append]
              omega
            · rw [List.length_append]
              omega
        · refine .inr ⟨[], old, rest, ?_, by simp, by simp only [List.length_nil]; omega⟩
          rw [heq]
          exact .here hne (hrecognised _)

end EquationExport.Text
