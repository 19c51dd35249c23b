import EquationExport.Proofs.Splice.Place
import EquationExport.Proofs.Splice.Parts

/-!
# Splicing in any order

Equations whose tokens are kept apart can be spliced in any order: the result is that of the single pass. What
has to be kept apart are the tokens and the markup that is put in. The markup of an equation holds no token, and
no token is read across the end of the markup and the text that follows it, which would hide the token's own run.

The proof goes equation by equation over the parts of the document. In front of the run of the next token, only
runs have been replaced by markup, so the token is met in its own run first.
-/

namespace EquationExport.Splice

open EquationExport.Text

/-! ### Tokens in a document that is partly spliced -/

/-- `t` begins in `a` and ends in the text `b` that follows. -/
def Straddles (a b t : Text) : Prop := ∃ u v, u ≠ [] ∧ v ≠ [] ∧ t = u ++ v ∧ u <:+ a ∧ v <+: b

theorem infix_append_iff {a b t : Text} : t <:+: a ++ b ↔ t <:+: a ∨ t <:+: b ∨ Straddles a b t :=
  List.infix_append_iff_ne_nil

theorem Straddles.mono {a b b' t : Text} (h : Straddles a b t) (hb : b <+: b') : Straddles a b' t := by
  obtain ⟨u, v, hu, hv, rfl, hua, hvb⟩ := h
  exact ⟨u, v, hu, hv, rfl, hua, hvb.trans hb⟩

/-- What is read from the front on before any tag is there whatever has been spliced. -/
theorem prefix_of_prefix_written {done : List Replacement} {parts : List Part} {v : Text}
    (hruns : ∀ run item, .slot run item ∈ parts → IsRun run) (hv : CodePoint.ofChar '<' ∉ v)
    (h : v <+: written done parts) : v <+: written [] parts := by
  induction parts generalizing v with
  | nil => exact h
  | cons part parts ih =>
    cases v with
    | nil => exact List.nil_prefix
    | cons c v =>
      cases part with
      | kept d =>
        obtain ⟨rfl, hrest⟩ := List.cons_prefix_cons.1 h
        exact List.cons_prefix_cons.2 ⟨rfl, ih (fun run item hm => hruns run item (List.mem_cons_of_mem _ hm))
          (fun hm => hv (List.mem_cons_of_mem _ hm)) hrest⟩
      | slot run item =>
        exfalso
        have htag : ∃ rest, written done (.slot run item :: parts) = CodePoint.ofChar '<' :: rest := by
          rw [written_cons, Part.write]
          split
          · obtain ⟨rest, hrest⟩ := exists_markup_eq_cons item
            exact ⟨_, by rw [hrest]; rfl⟩
          · obtain ⟨rest, hrest⟩ := (hruns run item List.mem_cons_self).exists_cons
            exact ⟨_, by rw [hrest]; rfl⟩
        obtain ⟨rest, hrest⟩ := htag
        rw [hrest] at h
        exact hv ((List.cons_prefix_cons.1 h).1 ▸ List.mem_cons_self)

/-- A token that is read after some equations have been spliced was there before, or comes with the markup of one of them. -/
theorem infix_written_cases {done : List Replacement} {parts : List Part} {t : Text}
    (hruns : ∀ run item, .slot run item ∈ parts → IsRun run) (ht : IsToken t) (h : t <:+: written done parts) :
    t <:+: written [] parts ∨ ∃ front run item rest, parts = front ++ .slot run item :: rest ∧
      (t <:+: markup item ∨ Straddles (markup item) (written [] rest) t) := by
  induction parts with
  | nil => exact .inl h
  | cons part parts ih =>
    have hruns' : ∀ run item, .slot run item ∈ parts → IsRun run :=
      fun run item hm => hruns run item (List.mem_cons_of_mem _ hm)
    have hstraddle : ∀ a, Straddles a (written done parts) t → Straddles a (written [] parts) t := by
      rintro a ⟨u, v, hu, hv, rfl, hua, hvb⟩
      have htag : CodePoint.ofChar '<' ∉ v :=
        fun hm => ht.not_mem (c := CodePoint.ofChar '<') (by decide) (List.mem_append_right _ hm)
      exact ⟨u, v, hu, hv, rfl, hua, prefix_of_prefix_written hruns' htag hvb⟩
    have hlater : t <:+: written done parts → t <:+: written [] (part :: parts) ∨
        ∃ front run item rest, part :: parts = front ++ .slot run item :: rest ∧
          (t <:+: markup item ∨ Straddles (markup item) (written [] rest) t) := by
      intro hin
      rcases ih hruns' hin with hold | ⟨front, run, item, rest, hparts, hnew⟩
      · exact .inl (hold.trans (List.suffix_append _ _).isInfix)
      · exact .inr ⟨part :: front, run, item, rest, by rw [hparts]; rfl, hnew⟩
    rw [written_cons, infix_append_iff] at h
    by_cases hsame : part.write done = part.write []
    · -- this part is as it was
      rw [hsame] at h
      rcases h with hin | hin | hin
      · exact .inl (hin.trans (List.prefix_append _ _).isInfix)
      · exact hlater hin
      · exact .inl (infix_append_iff.2 (.inr (.inr (hstraddle _ hin))))
    · cases part with
      | kept c => exact absurd rfl hsame
      | slot run item =>
        have hdone : item ∈ done := by
          by_contra hnot
          exact hsame (by simp [Part.write, hnot])
        rw [Part.write, if_pos hdone] at h
        rcases h with hin | hin | hin
        · exact .inr ⟨[], run, item, parts, rfl, .inl hin⟩
        · exact hlater hin
        · exact .inr ⟨[], run, item, parts, rfl, .inr (hstraddle _ hin)⟩

/-! ### Documents whose tokens are kept apart -/

/-- A run that is put in the place of an equation: it holds the token of this equation and no other. -/
structure Seat (items : List Replacement) (item : Replacement) (run : Text) : Prop where
  isRun : IsRun run
  token : item.token <:+: run
  alone : ∀ other ∈ items, other.token <:+: run → other.token = item.token

/-- A document in which the tokens of some equations are kept apart. -/
structure Separated (document : Text) (items : List Replacement) : Prop where
  /-- Every token occurs exactly once. -/
  once : ∀ item ∈ items, ∃! i, StandsAt document i item.token
  /-- Every token is in a run. -/
  seated : ∀ item ∈ items, ∃ before run after, document = before ++ (run ++ after) ∧ Seat items item run
  /-- No markup holds a token. -/
  clean : ∀ item ∈ items, ∀ other ∈ items, ¬ other.token <:+: sanitizeOmml item.omml

/--
Behind a run that is replaced, no token that is still to come is read across the end of the markup and the
text that follows.
-/
def SeamsClear (document : Text) (items : List Replacement) : Prop :=
  ∀ item ∈ items, ∀ before run after, document = before ++ (run ++ after) → Seat items item run →
    ∀ other ∈ items, other.token <:+: after → ¬ Straddles (markup item) after other.token

theorem existsUnique_standsAt {s t : Text} {i : Nat} (ht : t ≠ []) (hi : StandsAt s i t)
    (hall : ∀ j < s.length, StandsAt s j t → j = i) : ∃! i, StandsAt s i t := by
  refine ⟨i, hi, fun j hj => hall j ?_ hj⟩
  have hend := hj.add_length_le ht
  have hpos := List.length_pos_of_ne_nil ht
  omega

/-- A text that occurs once is on one side. -/
theorem not_infix_of_once {a b t : Text} (honce : ∃! i, StandsAt (a ++ b) i t) (ht : t ≠ []) (ha : t <:+: a) :
    ¬ t <:+: b := by
  intro hb
  obtain ⟨i, hi⟩ := infix_iff_exists_standsAt.1 ha
  obtain ⟨j, hj⟩ := infix_iff_exists_standsAt.1 hb
  have hend := hi.add_length_le ht
  have hpos := List.length_pos_of_ne_nil ht
  have heq := honce.unique ((standsAt_append_left hend).2 hi)
    ((standsAt_append_right (Nat.le_add_right _ j)).2 (by rwa [Nat.add_sub_cancel_left]))
  omega

/-- Where a token occurs once, there is one run that holds it. -/
theorem seat_unique {document before run after before' run' after' t : Text} (ht : IsToken t)
    (honce : ∃! i, StandsAt document i t) (h : document = before ++ (run ++ after)) (hrun : IsRun run)
    (hin : t <:+: run) (h' : document = before' ++ (run' ++ after')) (hrun' : IsRun run') (hin' : t <:+: run') :
    before = before' ∧ run = run' ∧ after = after' := by
  have hcut := cut_run after hrun ht hin
    fun hb => not_infix_of_once (h ▸ honce) ht.ne_nil hb (hin.trans (List.prefix_append _ _).isInfix)
  have hcut' := cut_run after' hrun' ht hin'
    fun hb => not_infix_of_once (h' ▸ honce) ht.ne_nil hb (hin'.trans (List.prefix_append _ _).isInfix)
  rw [← h] at hcut
  rw [← h'] at hcut'
  obtain ⟨hstart, hstop⟩ := hcut.unique hcut'
  obtain ⟨rfl, hrest⟩ := List.append_inj (h.symm.trans h') hstart
  obtain ⟨rfl, rfl⟩ := List.append_inj hrest (by omega)
  exact ⟨rfl, rfl, rfl⟩

/-- Markup that ends with a tag leaves every seam clear. -/
theorem seamsClear_of_markup_closed {document : Text} {items : List Replacement}
    (htokens : ∀ item ∈ items, IsToken item.token)
    (hclosed : ∀ item ∈ items, (markup item).getLast? = some (CodePoint.ofChar '>')) : SeamsClear document items := by
  rintro item hitem before run after - - other hother - ⟨u, v, hu, -, htoken, hsuffix, -⟩
  obtain ⟨front, c, rfl⟩ := (List.eq_nil_or_concat' u).resolve_left hu
  obtain ⟨a, ha⟩ := hsuffix
  have hlast := hclosed item hitem
  rw [← ha, ← List.append_assoc, List.getLast?_concat] at hlast
  have hmem : CodePoint.ofChar '>' ∈ other.token := by
    rw [htoken, ← Option.some.inj hlast]
    simp
  exact (htokens other hother).not_mem (by decide) hmem

section Run

variable {document : Text} {items : List Replacement} {parts : List Part}
  (hparts : Divided items document parts) (hsep : Separated document items)
  (htokens : ∀ item ∈ items, IsToken item.token) (hnodup : (items.map (·.token)).Nodup)

include hparts hsep htokens hnodup in
/-- The parts around the run of an equation. -/
theorem exists_slot {item : Replacement} (hitem : item ∈ items) :
    ∃ front run rest, parts = front ++ .slot run item :: rest ∧
      document = written [] front ++ (run ++ written [] rest) ∧ Seat items item run := by
  obtain ⟨before, run, after, hdoc, hseat⟩ := hsep.seated item hitem
  have hfind : items.find? (fun other => run.contains other.token) = some item := by
    cases hf : items.find? fun other => run.contains other.token with
    | none => exact absurd (contains_iff.2 hseat.token) (List.find?_eq_none.1 hf item hitem)
    | some other =>
      have hholds := List.find?_some (p := fun other : Replacement => _) hf
      have hother := List.mem_of_find?_eq_some hf
      have htoken := hseat.alone other hother (contains_iff.1 hholds)
      rw [List.inj_on_of_nodup_map hnodup hother hitem htoken]
  obtain ⟨front, rest, rfl⟩ := List.append_of_mem (hparts.slot_mem hdoc hseat.isRun hfind)
  have hwritten : document = written [] front ++ (run ++ written [] rest) := by
    rw [← hparts.written_eq, written_append, written_cons]
    rfl
  obtain ⟨-, -, rfl⟩ := seat_unique (htokens item hitem) (hsep.once item hitem) hdoc hseat.isRun hseat.token
    hwritten hseat.isRun hseat.token
  exact ⟨front, run, rest, rfl, hwritten, hseat⟩

variable (hseams : SeamsClear document items)

include hparts hsep htokens hnodup hseams

/-- Splicing one more equation writes its markup, and leaves the other parts as they are. -/
theorem spliceOne_written {done : List Replacement} {item : Replacement} (hitem : item ∈ items)
    (hnew : item ∉ done) :
    spliceOne (written done parts) item = .ok (written (item :: done) parts) := by
  obtain ⟨front, run, rest, heq, hdoc, hseat⟩ := exists_slot hparts hsep htokens hnodup hitem
  have ht := htokens item hitem
  have honce := hsep.once item hitem
  have hslot : ∀ run' other, .slot run' other ∈ parts → IsRun run' ∧ other ∈ items ∧ other.token <:+: run' :=
    fun run' other h => hparts.of_mem_slot h
  subst heq
  -- the token is not in front of its run, whatever has been spliced
  have hfront : ¬ item.token <:+: written [] front := by
    rw [hdoc] at honce
    exact fun h => not_infix_of_once honce ht.ne_nil h (hseat.token.trans (List.prefix_append _ _).isInfix)
  have hbefore : ¬ item.token <:+: written done front := by
    intro hin
    rcases infix_written_cases (fun run' other h => (hslot run' other (List.mem_append_left _ h)).1) ht hin with
      hold | ⟨front', run', other, rest', rfl, hmarkup | hmarkup⟩
    · exact hfront hold
    · have hother := (hslot run' other (by simp)).2.1
      exact hsep.clean other hother item hitem (infix_of_infix_markup ht hmarkup)
    · obtain ⟨hrun', hother, htoken'⟩ := hslot run' other (by simp)
      obtain ⟨before, run'', after, hdoc', hseat'⟩ := hsep.seated other hother
      have hdoc'' : document = written [] front' ++ (run' ++ (written [] rest' ++ (run ++ written [] rest))) := by
        rw [hdoc, written_append, written_cons]
        simp [Part.write]
      obtain ⟨-, -, rfl⟩ := seat_unique (htokens other hother) (hsep.once other hother) hdoc' hseat'.isRun
        hseat'.token hdoc'' hrun' htoken'
      have hlater : item.token <:+: written [] rest' ++ (run ++ written [] rest) :=
        (hseat.token.trans (List.prefix_append _ _).isInfix).trans (List.suffix_append _ _).isInfix
      exact hseams other hother _ _ _ hdoc' hseat' item hitem hlater (hmarkup.mono (List.prefix_append _ _))
  -- the token has no second place, so no other part changes
  have hbehind : ¬ item.token <:+: written [] rest := by
    have honce' : ∃! i, StandsAt ((written [] front ++ run) ++ written [] rest) i item.token := by
      rw [List.append_assoc, ← hdoc]
      exact honce
    exact not_infix_of_once honce' ht.ne_nil (hseat.token.trans (List.suffix_append _ _).isInfix)
  have hsame : ∀ other : List Part, (∀ part ∈ other, part ∈ front ++ .slot run item :: rest) →
      ¬ item.token <:+: written [] other → written done other = written (item :: done) other := by
    intro other hsub hnot
    refine written_congr fun run' item' hmem => ?_
    rw [List.mem_cons, or_iff_right]
    rintro rfl
    obtain ⟨a, b, rfl⟩ := List.append_of_mem hmem
    refine hnot ((hslot run' item' (hsub _ hmem)).2.2.trans ?_)
    rw [written_append, written_cons]
    exact List.infix_append' _ _ _
  rw [written_append, written_append, written_cons, written_cons, Part.write, Part.write, if_neg hnew,
    if_pos List.mem_cons_self, spliceOne_append hseat.isRun ht hseat.token hbefore,
    hsame front (fun part h => List.mem_append_left _ h) hfront,
    hsame rest (fun part h => List.mem_append_right _ (List.mem_cons_of_mem _ h)) hbehind, List.append_assoc]

/-- Splicing some equations, one after the other, writes the markup of all of them. -/
theorem foldlM_spliceOne {done todo : List Replacement} (htodo : todo ⊆ items) (hdistinct : todo.Nodup)
    (hnew : ∀ item ∈ todo, item ∉ done) :
    todo.foldlM spliceOne (written done parts) = .ok (written (todo ++ done) parts) := by
  induction todo generalizing done with
  | nil => rfl
  | cons item todo ih =>
    obtain ⟨hitem, hdistinct⟩ := List.nodup_cons.1 hdistinct
    rw [List.foldlM_cons, spliceOne_written hparts hsep htokens hnodup hseams (htodo List.mem_cons_self)
      (hnew item List.mem_cons_self)]
    have hrest : ∀ other ∈ todo, other ∉ item :: done := by
      intro other hother hmem
      rcases List.mem_cons.1 hmem with rfl | hmem
      · exact hitem hother
      · exact hnew other (List.mem_cons_of_mem _ hother) hmem
    have hfold := ih (fun _ h => htodo (List.mem_cons_of_mem _ h)) hdistinct hrest
    refine hfold.trans (congrArg _ (written_congr fun _ _ _ => ?_))
    simp [or_left_comm]

end Run

end EquationExport.Splice
