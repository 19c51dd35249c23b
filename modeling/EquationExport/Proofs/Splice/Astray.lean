import EquationExport.Proofs.Splice.Place

/-!
# A token that is met too early

If a token occurs in front of its own run, splicing leaves the run alone: it changes something further left, or
nothing at all. The document has gone astray then, and it stays so whatever is spliced later: its front is not
what it has to be, or the run is still there.
-/

namespace EquationExport.Splice

open EquationExport.Text

/--
The document should have markup behind `front`, but it has a run there, or has markup further left, where
`front` has a run.
-/
def Astray (front run document : Text) : Prop :=
  (∃ rest, document = front ++ (run ++ rest)) ∨
    ∃ start rest, start ++ ("<w:r" : Text) <+: front ∧ document = start ++ (("<m:oMath" : Text) ++ rest)

/-- A run that opens in front of a tag opens so far in front of it that the tag is not reached. -/
theorem OpensRunAt.add_four_le {front rest : Text} {start : Nat}
    (h : OpensRunAt (front ++ CodePoint.ofChar '<' :: rest) start) (hlt : start < front.length) :
    start + 4 ≤ front.length ∧ front.take start ++ ("<w:r" : Text) <+: front := by
  have hopen : StandsAt (front ++ CodePoint.ofChar '<' :: rest) start "<w:r" :=
    h.elim (List.IsPrefix.trans (by decide)) (List.IsPrefix.trans (by decide))
  -- what follows the angle bracket holds no other one
  have hname : StandsAt (front ++ CodePoint.ofChar '<' :: rest) (start + 1) "w:r" := by
    unfold StandsAt at hopen ⊢
    rw [← List.drop_drop]
    exact hopen.drop 1
  have hend : start + 4 ≤ front.length := by
    rcases hname.before_or_after (by decide) with hb | ha
    · rw [show ("w:r" : Text).length = 3 from by decide] at hb
      omega
    · omega
  refine ⟨hend, ?_⟩
  have hinside : start + ("<w:r" : Text).length ≤ front.length := hend
  obtain ⟨b, hb⟩ := (standsAt_append_left hinside).1 hopen
  exact ⟨b, by rw [List.append_assoc, hb, List.take_append_drop]⟩

/-- Cutting out a run that opens in `front` leads astray. -/
theorem astray_of_opens_before {front run rest : Text} {start stop : Nat} {item : Replacement}
    (h : OpensRunAt (front ++ CodePoint.ofChar '<' :: rest) start) (hlt : start < front.length) :
    Astray front run ((front ++ CodePoint.ofChar '<' :: rest).take start ++ markup item ++
      (front ++ CodePoint.ofChar '<' :: rest).drop stop) := by
  obtain ⟨r, hr⟩ := exists_markup_eq item
  refine .inr ⟨front.take start, r ++ (front ++ CodePoint.ofChar '<' :: rest).drop stop, (h.add_four_le hlt).2, ?_⟩
  rw [List.take_append_of_le_length hlt.le, hr, List.append_assoc, List.append_assoc]

section

variable {front run document : Text} {item : Replacement} (hrun : IsRun run) (ht : IsToken item.token)

include hrun ht

/-- Splicing an equation whose token occurs in front of its run leads astray. -/
theorem astray_of_infix_front (rest : Text) (h : item.token <:+: front) :
    ∃ document, spliceOne (front ++ (run ++ rest)) item = .ok document ∧ Astray front run document := by
  rcases spliceOne_cases (front ++ (run ++ rest)) item with ⟨hsame, -⟩ | ⟨start, stop, ⟨index, hfirst, hcut⟩, heq⟩
  · exact ⟨_, hsame, .inl ⟨rest, rfl⟩⟩
  · obtain ⟨i, hi⟩ := infix_iff_exists_standsAt.1 h
    have hend := hi.add_length_le ht.ne_nil
    have hindex : index ≤ i := by
      by_contra hlt
      exact hfirst.2 i (by omega) ((standsAt_append_left hend).2 hi)
    have hbefore := hcut.before
    obtain ⟨tail, rfl⟩ := hrun.exists_cons
    exact ⟨_, heq, astray_of_opens_before hcut.opens (by omega)⟩

/-- Whatever is spliced next, a document that has gone astray stays so. -/
theorem Astray.spliceOne (h : Astray front run document) (hnot : ¬ item.token <:+: run) :
    ∃ document', spliceOne document item = .ok document' ∧ Astray front run document' := by
  rcases spliceOne_cases document item with ⟨hsame, -⟩ | ⟨start, stop, ⟨index, hfirst, hcut⟩, heq⟩
  · exact ⟨_, hsame, h⟩
  refine ⟨_, heq, ?_⟩
  rcases h with ⟨rest, rfl⟩ | ⟨begin, rest, hfront, rfl⟩
  · rcases Nat.lt_trichotomy start front.length with hlt | rfl | hgt
    · obtain ⟨tail, rfl⟩ := hrun.exists_cons
      exact astray_of_opens_before hcut.opens hlt
    · -- the run itself is not cut out, since the token is not in it
      exfalso
      obtain ⟨n, hn, hle, -⟩ := hcut.closes
      rw [List.drop_left] at hn
      obtain rfl := hn.unique (hrun.closes_append rest)
      have hbefore := hcut.before
      have hstands := hfirst.1
      rw [standsAt_append_right (by omega)] at hstands
      obtain ⟨body, hbody, hlength⟩ := hrun.exists_eq_append
      have hmark : run ++ rest = body ++ CodePoint.ofChar '<' :: (("/w:r>" : Text) ++ rest) := by
        rw [hbody, List.append_assoc]
        rfl
      rw [hmark] at hstands
      rcases hstands.before_or_after (ht.not_mem (by decide)) with hb | ha
      · refine hnot (infix_iff_exists_standsAt.2 ⟨index - front.length, ?_⟩)
        rw [hbody]
        exact (standsAt_append_left hb).2 ((standsAt_append_left hb).1 hstands)
      · omega
    · have hopen : OpensRunAt (run ++ rest) (start - front.length) :=
        hcut.opens.imp (standsAt_append_right hgt.le).1 (standsAt_append_right hgt.le).1
      have hbehind := (hrun.opens_append_cases hopen).resolve_left (by omega)
      obtain ⟨k, rfl⟩ : ∃ k, start = front.length + (run.length + k) := ⟨start - front.length - run.length, by omega⟩
      refine .inl ⟨rest.take k ++ (markup item ++ (front ++ (run ++ rest)).drop stop), ?_⟩
      rw [List.take_length_add_append, List.take_length_add_append]
      simp only [List.append_assoc]
  · rcases Nat.lt_or_ge start begin.length with hlt | hge
    · have hopens : OpensRunAt (begin ++ CodePoint.ofChar '<' :: (("m:oMath" : Text) ++ rest)) start := hcut.opens
      obtain ⟨-, hbegin⟩ := hopens.add_four_le hlt
      obtain ⟨r, hr⟩ := exists_markup_eq item
      refine .inr ⟨begin.take start, r ++ (begin ++ (("<m:oMath" : Text) ++ rest)).drop stop,
        hbegin.trans ((List.prefix_append _ _).trans hfront), ?_⟩
      rw [List.take_append_of_le_length hlt.le, hr, List.append_assoc, List.append_assoc]
    · -- no run opens in the tag of an equation
      have hbehind : begin.length + 8 ≤ start := by
        by_contra hinside
        obtain ⟨k, rfl⟩ : ∃ k, start = begin.length + k := ⟨start - begin.length, by omega⟩
        have hk : k < 8 := by omega
        have hopen : StandsAt (("<m:oMath" : Text) ++ rest) k "<w:r" := by
          have hs : OpensRunAt (("<m:oMath" : Text) ++ rest) (begin.length + k - begin.length) :=
            hcut.opens.imp (standsAt_append_right hge).1 (standsAt_append_right hge).1
          rw [Nat.add_sub_cancel_left] at hs
          exact hs.elim (List.IsPrefix.trans (by decide)) (List.IsPrefix.trans (by decide))
        have hfirst : ("<m:oMath" : Text)[k]? = some (CodePoint.ofChar '<') := by
          rw [← List.getElem?_append_left hk]
          exact hopen.getElem? (k := 0) (by decide)
        have honly : ∀ i < 8, ("<m:oMath" : Text)[i]? = some (CodePoint.ofChar '<') → i = 0 := by decide
        obtain rfl := honly k hk hfirst
        have hsecond : some (CodePoint.ofChar 'm') = some (CodePoint.ofChar 'w') := hopen.getElem? (k := 1) (by decide)
        exact absurd hsecond (by decide)
      obtain ⟨k, rfl⟩ : ∃ k, start = begin.length + (("<m:oMath" : Text).length + k) :=
        ⟨start - begin.length - 8, by rw [show ("<m:oMath" : Text).length = 8 from by decide]; omega⟩
      refine .inr ⟨begin, rest.take k ++ (markup item ++ (begin ++ (("<m:oMath" : Text) ++ rest)).drop stop), hfront, ?_⟩
      rw [List.take_length_add_append, List.take_length_add_append]
      simp only [List.append_assoc]

end

/-- After whatever is spliced, a document that has gone astray has not got its markup behind `front`. -/
theorem Astray.foldlM_spliceOne {front run document : Text} {items : List Replacement} (hrun : IsRun run)
    (h : Astray front run document) (htokens : ∀ item ∈ items, IsToken item.token)
    (hnot : ∀ item ∈ items, ¬ item.token <:+: run) :
    ∃ document', items.foldlM Splice.spliceOne document = .ok document' ∧ Astray front run document' := by
  induction items generalizing document with
  | nil => exact ⟨document, rfl, h⟩
  | cons item items ih =>
    obtain ⟨document', hok, h'⟩ := h.spliceOne hrun (htokens item List.mem_cons_self) (hnot item List.mem_cons_self)
    obtain ⟨document'', hok', h''⟩ := ih h' (fun other hm => htokens other (List.mem_cons_of_mem _ hm))
      fun other hm => hnot other (List.mem_cons_of_mem _ hm)
    exact ⟨document'', by rw [List.foldlM_cons, hok]; exact hok', h''⟩

theorem Astray.ne {front run document : Text} (hrun : IsRun run) (h : Astray front run document) (rest : Text) :
    document ≠ front ++ (("<m:oMath" : Text) ++ rest) := by
  have hdiffer : ∀ start a b : Text, ("<w:r" : Text) <+: a → start ++ a ≠ start ++ (("<m:oMath" : Text) ++ b) := by
    rintro start _ b ⟨a, rfl⟩ heq
    have hsecond := congrArg (fun s : Text => s[1]?) (List.append_cancel_left heq)
    exact absurd hsecond (show some (CodePoint.ofChar 'w') ≠ some (CodePoint.ofChar 'm') by decide)
  have hopens : ("<w:r" : Text) <+: run :=
    hrun.opens.elim (fun ho => List.IsPrefix.trans (by decide) (standsAt_zero.1 ho))
      fun ho => List.IsPrefix.trans (by decide) (standsAt_zero.1 ho)
  rcases h with ⟨tail, rfl⟩ | ⟨start, tail, ⟨more, rfl⟩, rfl⟩
  · exact hdiffer front _ _ (hopens.trans (List.prefix_append _ _))
  · intro heq
    simp only [List.append_assoc] at heq
    exact hdiffer start _ _ (List.prefix_append _ _) heq.symm

end EquationExport.Splice
