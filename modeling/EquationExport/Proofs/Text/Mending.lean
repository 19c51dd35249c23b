import EquationExport.Text.Clean

/-!
# Mending surrogates

What is due to the surrogates of a text: a pair becomes the code point it stands for, a surrogate outside a pair goes,
and every other code point stays where it is. This is what becomes of a text whose surrogates are all in pairs, or all
alone. In a text that holds both, the lone ones take the pairs with them.
-/

namespace EquationExport

namespace CodePoint

theorem isSurrogate_of_isHighSurrogate {c : CodePoint} (h : c.isHighSurrogate = true) : c.isSurrogate = true := by
  simp only [isHighSurrogate, isSurrogate, inRange, Bool.and_eq_true, decide_eq_true_eq] at h ⊢
  omega

theorem isSurrogate_of_isLowSurrogate {c : CodePoint} (h : c.isLowSurrogate = true) : c.isSurrogate = true := by
  simp only [isLowSurrogate, isSurrogate, inRange, Bool.and_eq_true, decide_eq_true_eq] at h ⊢
  omega

theorem not_isHighSurrogate_of_isLowSurrogate {c : CodePoint} (h : c.isLowSurrogate = true) : ¬c.isHighSurrogate = true := by
  simp only [isHighSurrogate, isLowSurrogate, inRange, Bool.and_eq_true, decide_eq_true_eq] at h ⊢
  omega

/-- A pair stands for a code point past U+FFFF. -/
theorem le_val_ofPair {high low : CodePoint} (hhigh : high.isHighSurrogate = true) (hlow : low.isLowSurrogate = true) :
    0x10000 ≤ (ofPair high low).val := by
  simp only [isHighSurrogate, isLowSurrogate, inRange, Bool.and_eq_true, decide_eq_true_eq] at hhigh hlow
  rw [ofPair, val_ofNat (by omega)]
  omega

theorem isSurrogate_of_le_val {c : CodePoint} (h : 0x10000 ≤ c.val) : c.isSurrogate = false := by
  simp only [isSurrogate, inRange, Bool.and_eq_false_iff, decide_eq_false_iff_not]
  omega

end CodePoint

namespace Text

variable {c d : CodePoint} {s t : Text} {i : Nat}

/-! ### Pairs and lone surrogates -/

/-- A high surrogate stands at the place, and a low one right behind it. -/
def PairAt (s : Text) (i : Nat) : Prop :=
  ∃ c d, s[i]? = some c ∧ s[i + 1]? = some d ∧ c.isHighSurrogate = true ∧ d.isLowSurrogate = true

/-- A surrogate stands at the place that is neither half of a pair. -/
def LoneAt (s : Text) (i : Nat) : Prop :=
  (∃ c, s[i]? = some c ∧ c.isSurrogate = true) ∧ ¬PairAt s i ∧ ∀ j, j + 1 = i → ¬PairAt s j

/-- A pair of surrogates occurs in the text. -/
def HoldsPair (s : Text) : Prop := ∃ i, PairAt s i

/-- A surrogate outside all pairs occurs in the text. -/
def HoldsLone (s : Text) : Prop := ∃ i, LoneAt s i

theorem pairAt_zero : PairAt (c :: s) 0 ↔ c.isHighSurrogate = true ∧ ∃ d u, s = d :: u ∧ d.isLowSurrogate = true := by
  cases s <;> simp [PairAt]

theorem pairAt_succ : PairAt (c :: s) (i + 1) ↔ PairAt s i := by simp [PairAt]

theorem loneAt_zero : LoneAt (c :: s) 0 ↔ c.isSurrogate = true ∧ ¬PairAt (c :: s) 0 := by simp [LoneAt]

/-- Behind a code point that starts no pair, a surrogate is alone if it is alone without that code point. -/
theorem loneAt_succ (h : i = 0 → ¬PairAt (c :: s) 0) : LoneAt (c :: s) (i + 1) ↔ LoneAt s i := by
  unfold LoneAt
  rw [pairAt_succ]
  refine and_congr (by simp) (and_congr_right fun _ => ⟨fun hback j hj => ?_, fun hback j hj => ?_⟩)
  · subst hj
    exact fun hpair => hback (j + 1) rfl (pairAt_succ.2 hpair)
  · obtain rfl : j = i := Nat.succ.inj hj
    cases j with
    | zero => exact h rfl
    | succ j => exact fun hpair => hback j rfl (pairAt_succ.1 hpair)

theorem holdsPair_cons : HoldsPair (c :: s) ↔ PairAt (c :: s) 0 ∨ HoldsPair s := by
  constructor
  · rintro ⟨_ | i, h⟩
    · exact .inl h
    · exact .inr ⟨i, pairAt_succ.1 h⟩
  · rintro (h | ⟨i, h⟩)
    · exact ⟨0, h⟩
    · exact ⟨i + 1, pairAt_succ.2 h⟩

theorem holdsLone_cons (h : ¬PairAt (c :: s) 0) : HoldsLone (c :: s) ↔ c.isSurrogate = true ∨ HoldsLone s := by
  constructor
  · rintro ⟨_ | i, hlone⟩
    · exact .inl (loneAt_zero.1 hlone).1
    · exact .inr ⟨i, (loneAt_succ fun _ => h).1 hlone⟩
  · rintro (hc | ⟨i, hlone⟩)
    · exact ⟨0, loneAt_zero.2 ⟨hc, h⟩⟩
    · exact ⟨i + 1, (loneAt_succ fun _ => h).2 hlone⟩

theorem not_pairAt_zero_of_isLowSurrogate (hd : d.isLowSurrogate = true) : ¬PairAt (d :: s) 0 := fun h =>
  CodePoint.not_isHighSurrogate_of_isLowSurrogate hd (pairAt_zero.1 h).1

/-- A pair at the front has no part in what is alone. -/
theorem holdsLone_pair (hc : c.isHighSurrogate = true) (hd : d.isLowSurrogate = true) :
    HoldsLone (c :: d :: s) ↔ HoldsLone s := by
  have hpair : PairAt (c :: d :: s) 0 := pairAt_zero.2 ⟨hc, d, s, rfl, hd⟩
  have hnext : ∀ i, LoneAt (c :: d :: s) (i + 2) ↔ LoneAt s i := fun i =>
    (loneAt_succ fun hi => absurd hi (Nat.succ_ne_zero i)).trans
      (loneAt_succ fun _ => not_pairAt_zero_of_isLowSurrogate hd)
  constructor
  · rintro ⟨_ | _ | i, hlone⟩
    · exact absurd hpair hlone.2.1
    · exact absurd hpair (hlone.2.2 0 rfl)
    · exact ⟨i, (hnext i).1 hlone⟩
  · rintro ⟨i, hlone⟩
    exact ⟨i + 2, (hnext i).2 hlone⟩

/-! ### What is due -/

/-- What a text becomes when its surrogates are mended one by one, from left to right. -/
inductive Mended : Text → Text → Prop where
  | nil : Mended [] []
  /-- A high surrogate and the low one behind it become the code point they stand for. -/
  | pair {c d : CodePoint} {s t : Text} (hc : c.isHighSurrogate = true) (hd : d.isLowSurrogate = true) (h : Mended s t) :
      Mended (c :: d :: s) (CodePoint.ofPair c d :: t)
  /-- A surrogate that starts no pair goes. -/
  | lone {c : CodePoint} {s t : Text} (hc : c.isSurrogate = true) (hpair : ¬PairAt (c :: s) 0) (h : Mended s t) : Mended (c :: s) t
  /-- Any other code point stays. -/
  | keep {c : CodePoint} {s t : Text} (hc : c.isSurrogate = false) (h : Mended s t) : Mended (c :: s) (c :: t)

namespace Mended

/-- Every text can be mended. -/
theorem exists_of (s : Text) : ∃ t, Mended s t := by
  -- A step takes one code point or two, so the induction is on the length.
  induction hn : s.length using Nat.strongRecOn generalizing s with
  | ind n ih =>
    subst hn
    cases s with
    | nil => exact ⟨[], .nil⟩
    | cons c s =>
      by_cases hpair : PairAt (c :: s) 0
      · obtain ⟨hc, d, u, rfl, hd⟩ := pairAt_zero.1 hpair
        obtain ⟨t, ht⟩ := ih u.length (by simp only [List.length_cons]; omega) u rfl
        exact ⟨_, .pair hc hd ht⟩
      · obtain ⟨t, ht⟩ := ih s.length (by simp) s rfl
        cases hc : c.isSurrogate with
        | true => exact ⟨t, .lone hc hpair ht⟩
        | false => exact ⟨c :: t, .keep hc ht⟩

/-- There is one way to mend a text. -/
theorem unique {u : Text} (ht : Mended s t) (hu : Mended s u) : t = u := by
  induction ht generalizing u with
  | nil => cases hu; rfl
  | @pair c d s t hc hd _ ih =>
    cases hu with
    | pair _ _ hu => rw [ih hu]
    | lone _ hpair _ => exact absurd (pairAt_zero.2 ⟨hc, d, s, rfl, hd⟩) hpair
    | keep hnot _ => simp [CodePoint.isSurrogate_of_isHighSurrogate hc] at hnot
  | lone hc hpair _ ih =>
    cases hu with
    | pair hhigh hlow _ => exact absurd (pairAt_zero.2 ⟨hhigh, _, _, rfl, hlow⟩) hpair
    | lone _ _ hu => exact ih hu
    | keep hnot _ => simp [hc] at hnot
  | keep hc _ ih =>
    cases hu with
    | pair hhigh _ _ => simp [CodePoint.isSurrogate_of_isHighSurrogate hhigh] at hc
    | lone hnot _ _ => simp [hc] at hnot
    | keep _ hu => rw [ih hu]

/-- Without pairs there is nothing to join, and all surrogates go. -/
theorem eq_filter (h : Mended s t) (hs : ¬HoldsPair s) : t = s.filter fun c => !c.isSurrogate := by
  induction h with
  | nil => rfl
  | @pair c d s _ hc hd _ _ => exact absurd (holdsPair_cons.2 (.inl (pairAt_zero.2 ⟨hc, d, s, rfl, hd⟩))) hs
  | lone hc _ _ ih => rw [ih fun hrest => hs (holdsPair_cons.2 (.inr hrest)), List.filter_cons_of_neg (by simp [hc])]
  | keep hc _ ih =>
    rw [List.filter_cons_of_pos (by simp [hc]), ← ih fun hrest => hs (holdsPair_cons.2 (.inr hrest))]

/-- The mended text has a code point for each pair besides those that are no surrogates. -/
theorem length_filter_le (h : Mended s t) : (s.filter fun c => !c.isSurrogate).length ≤ t.length := by
  induction h with
  | nil => simp
  | @pair c d s t hc hd _ ih =>
    rw [List.filter_cons_of_neg (by simp [CodePoint.isSurrogate_of_isHighSurrogate hc]),
      List.filter_cons_of_neg (by simp [CodePoint.isSurrogate_of_isLowSurrogate hd]), List.length_cons]
    omega
  | lone hc _ _ ih => rwa [List.filter_cons_of_neg (by simp [hc])]
  | keep hc _ ih =>
    rw [List.filter_cons_of_pos (by simp [hc]), List.length_cons, List.length_cons]
    omega

/-- It has more than those if there is a pair. -/
theorem length_filter_lt (h : Mended s t) (hs : HoldsPair s) : (s.filter fun c => !c.isSurrogate).length < t.length := by
  induction h with
  | nil => exact absurd hs (by rintro ⟨i, c, d, hc, -⟩; simp at hc)
  | @pair c d s t hc hd h _ =>
    rw [List.filter_cons_of_neg (by simp [CodePoint.isSurrogate_of_isHighSurrogate hc]),
      List.filter_cons_of_neg (by simp [CodePoint.isSurrogate_of_isLowSurrogate hd]), List.length_cons]
    have := h.length_filter_le
    omega
  | lone hc hpair _ ih =>
    rw [List.filter_cons_of_neg (by simp [hc])]
    exact ih ((holdsPair_cons.1 hs).resolve_left hpair)
  | @keep c s t hc _ ih =>
    have hnot : ¬PairAt (c :: s) 0 := fun hpair => by
      simp [CodePoint.isSurrogate_of_isHighSurrogate (pairAt_zero.1 hpair).1] at hc
    rw [List.filter_cons_of_pos (by simp [hc]), List.length_cons, List.length_cons]
    exact Nat.succ_lt_succ (ih ((holdsPair_cons.1 hs).resolve_left hnot))

/-- What is in a mended text was there before, or stands for a pair. -/
theorem mem (h : Mended s t) (hc : c ∈ t) : (c ∈ s ∧ c.isSurrogate = false) ∨ 0x10000 ≤ c.val := by
  induction h with
  | nil => simp at hc
  | pair hhigh hlow _ ih =>
    rcases List.mem_cons.1 hc with hpair | hc
    · exact .inr (hpair ▸ CodePoint.le_val_ofPair hhigh hlow)
    · exact (ih hc).imp_left fun h => ⟨by simp [h.1], h.2⟩
  | lone _ _ _ ih => exact (ih hc).imp_left fun h => ⟨by simp [h.1], h.2⟩
  | keep hkeep _ ih =>
    rcases List.mem_cons.1 hc with rfl | hc
    · exact .inl ⟨by simp, hkeep⟩
    · exact (ih hc).imp_left fun h => ⟨by simp [h.1], h.2⟩

theorem mem_of_mem (h : Mended s t) (hc : c ∈ s) (hnot : c.isSurrogate = false) : c ∈ t := by
  induction h with
  | nil => exact hc
  | pair hhigh hlow _ ih =>
    rcases List.mem_cons.1 hc with rfl | hc
    · simp [CodePoint.isSurrogate_of_isHighSurrogate hhigh] at hnot
    rcases List.mem_cons.1 hc with rfl | hc
    · simp [CodePoint.isSurrogate_of_isLowSurrogate hlow] at hnot
    · exact List.mem_cons_of_mem _ (ih hc)
  | lone hlone _ _ ih =>
    rcases List.mem_cons.1 hc with rfl | hc
    · simp [hlone] at hnot
    · exact ih hc
  | keep _ _ ih =>
    rcases List.mem_cons.1 hc with rfl | hc
    · exact List.mem_cons_self
    · exact List.mem_cons_of_mem _ (ih hc)

end Mended

/-! ### What is done -/

/-- Joining stops at a lone surrogate, and does what is due otherwise. -/
theorem joinPairs?_cases (s : Text) :
    (HoldsLone s ∧ s.joinPairs? = none) ∨ (¬HoldsLone s ∧ ∃ t, s.joinPairs? = some t ∧ Mended s t) := by
  fun_induction joinPairs? s with
  | case1 => exact .inr ⟨by rintro ⟨i, ⟨c, hc, -⟩, -⟩; simp at hc, [], rfl, .nil⟩
  | case2 c hc =>
    have hpair : ¬PairAt [c] 0 := fun h => by simpa using (pairAt_zero.1 h).2
    exact .inl ⟨(holdsLone_cons hpair).2 (.inl hc), rfl⟩
  | case3 c hc =>
    have hpair : ¬PairAt [c] 0 := fun h => by simpa using (pairAt_zero.1 h).2
    refine .inr ⟨fun h => ?_, [c], rfl, .keep (Bool.eq_false_iff.2 hc) .nil⟩
    obtain h | ⟨i, ⟨d, hd, -⟩, -⟩ := (holdsLone_cons hpair).1 h
    · exact hc h
    · simp at hd
  | case4 c d s hpair ih =>
    obtain ⟨hc, hd⟩ := Bool.and_eq_true_iff.1 hpair
    rw [holdsLone_pair hc hd]
    rcases ih with ⟨hlone, hjoin⟩ | ⟨hlone, t, hjoin, ht⟩
    · exact .inl ⟨hlone, by rw [hjoin, Option.map_none]⟩
    · exact .inr ⟨hlone, _, by rw [hjoin, Option.map_some], .pair hc hd ht⟩
  | case5 c d s hpair hc =>
    have hnot : ¬PairAt (c :: d :: s) 0 := fun h => hpair (by simpa using pairAt_zero.1 h)
    exact .inl ⟨(holdsLone_cons hnot).2 (.inl hc), rfl⟩
  | case6 c d s hpair hc ih =>
    have hnot : ¬PairAt (c :: d :: s) 0 := fun h => hpair (by simpa using pairAt_zero.1 h)
    rw [holdsLone_cons hnot, or_iff_right hc]
    rcases ih with ⟨hlone, hjoin⟩ | ⟨hlone, t, hjoin, ht⟩
    · exact .inl ⟨hlone, by rw [hjoin, Option.map_none]⟩
    · exact .inr ⟨hlone, _, by rw [hjoin, Option.map_some], .keep (Bool.eq_false_iff.2 hc) ht⟩

/-- A text without lone surrogates is mended; of any other all surrogates are deleted. -/
theorem stripUnpairedSurrogates_cases (s : Text) :
    (HoldsLone s ∧ s.stripUnpairedSurrogates = s.filter fun c => !c.isSurrogate) ∨
      (¬HoldsLone s ∧ Mended s s.stripUnpairedSurrogates) := by
  unfold stripUnpairedSurrogates
  rcases joinPairs?_cases s with ⟨hlone, hjoin⟩ | ⟨hlone, t, hjoin, ht⟩
  · exact .inl ⟨hlone, by rw [hjoin, Option.getD_none]⟩
  · exact .inr ⟨hlone, by rwa [hjoin, Option.getD_some]⟩

theorem mem_stripUnpairedSurrogates (hc : c ∈ s.stripUnpairedSurrogates) :
    (c ∈ s ∧ c.isSurrogate = false) ∨ 0x10000 ≤ c.val := by
  rcases stripUnpairedSurrogates_cases s with ⟨-, heq⟩ | ⟨-, hmended⟩
  · rw [heq, List.mem_filter, Bool.not_eq_true'] at hc
    exact .inl hc
  · exact hmended.mem hc

theorem mem_stripUnpairedSurrogates_of_mem (hc : c ∈ s) (hnot : c.isSurrogate = false) : c ∈ s.stripUnpairedSurrogates := by
  rcases stripUnpairedSurrogates_cases s with ⟨-, heq⟩ | ⟨-, hmended⟩
  · rw [heq, List.mem_filter, Bool.not_eq_true']
    exact ⟨hc, hnot⟩
  · exact hmended.mem_of_mem hc hnot

/-- No surrogate is left, paired or not. -/
theorem hasSurrogate_stripUnpairedSurrogates (s : Text) : s.stripUnpairedSurrogates.hasSurrogate = false := by
  rw [hasSurrogate, List.any_eq_false]
  intro c hc
  rcases mem_stripUnpairedSurrogates hc with ⟨-, hnot⟩ | hval
  · simp [hnot]
  · simp [CodePoint.isSurrogate_of_le_val hval]

/--
There is one way to mend a text, and the program takes it unless the text holds a pair and a lone surrogate too. Of such a
text it deletes all surrogates, the pairs included.
-/
theorem mended_stripUnpairedSurrogates_iff (s : Text) :
    (∃ t, ∀ u, Mended s u ↔ u = t) ∧
      (Mended s s.stripUnpairedSurrogates ↔ ¬(HoldsPair s ∧ HoldsLone s)) ∧
      (Mended s s.stripUnpairedSurrogates ∨ s.stripUnpairedSurrogates = s.filter fun c => !c.isSurrogate) := by
  obtain ⟨t, ht⟩ := Mended.exists_of s
  refine ⟨⟨t, fun u => ⟨fun hu => hu.unique ht, fun hu => hu ▸ ht⟩⟩, ?_, ?_⟩
  · constructor
    · rintro hmended ⟨hpair, hlone⟩
      rcases stripUnpairedSurrogates_cases s with ⟨-, heq⟩ | ⟨hnot, -⟩
      · -- The pairs are missing from what is left.
        have := heq ▸ hmended.length_filter_lt hpair
        omega
      · exact hnot hlone
    · intro hnot
      rcases stripUnpairedSurrogates_cases s with ⟨hlone, heq⟩ | ⟨-, hmended⟩
      · rw [heq, ← ht.eq_filter fun hpair => hnot ⟨hpair, hlone⟩]
        exact ht
      · exact hmended
  · rcases stripUnpairedSurrogates_cases s with ⟨-, heq⟩ | ⟨-, hmended⟩
    · exact .inr heq
    · exact .inl hmended

/-- A mathematical letter in two units, and the first unit of another behind it: both are deleted. -/
theorem stripUnpairedSurrogates_letter_lone :
    let s : Text := [.ofNat 0xD835, .ofNat 0xDC00, .ofNat 0xD835]
    Mended s "𝐀" ∧ s.stripUnpairedSurrogates = "" ∧ ¬Mended s s.stripUnpairedSurrogates := by
  have hletter : ("𝐀" : Text) = [CodePoint.ofPair (.ofNat 0xD835) (.ofNat 0xDC00)] := by decide
  have hdue : Mended [.ofNat 0xD835, .ofNat 0xDC00, .ofNat 0xD835] "𝐀" := by
    rw [hletter]
    exact .pair (by decide) (by decide) (.lone (by decide) (by simp [pairAt_zero]) .nil)
  refine ⟨hdue, by decide, fun h => ?_⟩
  exact absurd (h.unique hdue) (by decide)

end Text

end EquationExport
