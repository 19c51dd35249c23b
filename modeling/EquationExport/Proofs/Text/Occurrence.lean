import Mathlib.Data.List.Infix
import EquationExport.Text.Search

/-!
# Where a text stands in a text

Literal search, told by positions. `StandsAt s i needle` says that `needle` is read in `s` from position `i`
on; the functions that search from the left find the least such position. A text without a given code point
never reaches across that code point, which is how a token is kept apart from the markup around it.
-/

namespace EquationExport.Text

/-! ### Positions -/

/-- `needle` stands in `s` from position `i` on. -/
def StandsAt (s : Text) (i : Nat) (needle : Text) : Prop := needle <+: s.drop i

instance (s : Text) (i : Nat) (needle : Text) : Decidable (StandsAt s i needle) :=
  inferInstanceAs (Decidable (needle <+: s.drop i))

/-- `needle` stands at `i` and nowhere before. -/
def FirstAt (s : Text) (i : Nat) (needle : Text) : Prop :=
  StandsAt s i needle ∧ ∀ j < i, ¬ StandsAt s j needle

theorem standsAt_iff {s needle : Text} {i : Nat} (h : i ≤ s.length) :
    StandsAt s i needle ↔ ∃ a b, s = a ++ needle ++ b ∧ a.length = i := by
  constructor
  · rintro ⟨b, hb⟩
    refine ⟨s.take i, b, ?_, by simp [h]⟩
    rw [List.append_assoc, hb, List.take_append_drop]
  · rintro ⟨a, b, rfl, rfl⟩
    exact ⟨b, by simp⟩

theorem standsAt_append (a needle b : Text) : StandsAt (a ++ needle ++ b) a.length needle :=
  (standsAt_iff (by simp)).2 ⟨a, b, rfl, rfl⟩

@[simp] theorem standsAt_zero {s needle : Text} : StandsAt s 0 needle ↔ needle <+: s := by
  simp [StandsAt]

@[simp] theorem standsAt_cons_succ {c : CodePoint} {s needle : Text} {i : Nat} :
    StandsAt (c :: s) (i + 1) needle ↔ StandsAt s i needle := Iff.rfl

/-- A text that stands somewhere ends inside. -/
theorem StandsAt.add_length_le {s needle : Text} {i : Nat} (h : StandsAt s i needle) (hn : needle ≠ []) :
    i + needle.length ≤ s.length := by
  have hle := h.length_le
  have hpos := List.length_pos_of_ne_nil hn
  rw [List.length_drop] at hle
  omega

theorem StandsAt.getElem? {s needle : Text} {i k : Nat} (h : StandsAt s i needle) (hk : k < needle.length) :
    s[i + k]? = needle[k]? := by
  obtain ⟨b, hb⟩ := h
  rw [← List.getElem?_drop, ← hb, List.getElem?_append_left hk]

/-- A text stands first at one position only. -/
theorem FirstAt.unique {s needle : Text} {i j : Nat} (hi : FirstAt s i needle) (hj : FirstAt s j needle) : i = j := by
  rcases Nat.lt_trichotomy i j with hlt | heq | hgt
  · exact absurd hi.1 (hj.2 i hlt)
  · exact heq
  · exact absurd hj.1 (hi.2 j hgt)

theorem infix_iff_exists_standsAt {s needle : Text} : needle <:+: s ↔ ∃ i, StandsAt s i needle := by
  constructor
  · rintro ⟨a, b, rfl⟩
    exact ⟨a.length, standsAt_append a needle b⟩
  · rintro ⟨i, h⟩
    exact h.isInfix.trans (List.drop_suffix i s).isInfix

/-! ### Joined texts -/

/-- What stands in the front of a joined text stands in its first part. -/
theorem standsAt_append_left {a b needle : Text} {i : Nat} (h : i + needle.length ≤ a.length) :
    StandsAt (a ++ b) i needle ↔ StandsAt a i needle := by
  unfold StandsAt
  rw [List.drop_append_of_le_length (by omega)]
  constructor
  · intro hp
    exact List.prefix_of_prefix_length_le hp (List.prefix_append _ _) (by rw [List.length_drop]; omega)
  · exact fun hp => hp.trans (List.prefix_append _ _)

/-- What stands in the back of a joined text stands in its second part. -/
theorem standsAt_append_right {a b needle : Text} {i : Nat} (h : a.length ≤ i) :
    StandsAt (a ++ b) i needle ↔ StandsAt b (i - a.length) needle := by
  unfold StandsAt
  rw [List.drop_append, List.drop_of_length_le h, List.nil_append]

/-- A text without `c` does not reach across a `c`. -/
theorem StandsAt.before_or_after {a b needle : Text} {c : CodePoint} {i : Nat}
    (h : StandsAt (a ++ c :: b) i needle) (hc : c ∉ needle) :
    i + needle.length ≤ a.length ∨ a.length < i := by
  by_contra hcon
  rw [not_or, Nat.not_le, Nat.not_lt] at hcon
  have hk := h.getElem? (k := a.length - i) (by omega)
  rw [Nat.add_sub_cancel' hcon.2, List.getElem?_append_right (Nat.le_refl _)] at hk
  simp only [Nat.sub_self, List.getElem?_cons_zero] at hk
  exact hc (List.mem_of_getElem? hk.symm)

/-- A text without `c` that stands somewhere in a text around a `c` stands on one side of it. -/
theorem infix_append_cons_iff {a b needle : Text} {c : CodePoint} (hc : c ∉ needle) :
    needle <:+: a ++ c :: b ↔ needle <:+: a ∨ needle <:+: b := by
  constructor
  · intro h
    obtain ⟨i, hi⟩ := infix_iff_exists_standsAt.1 h
    rcases hi.before_or_after hc with hb | ha
    · exact .inl (infix_iff_exists_standsAt.2 ⟨i, (standsAt_append_left hb).1 hi⟩)
    · have hb := (standsAt_append_right (by omega)).1 hi
      obtain ⟨k, hk⟩ : ∃ k, i - a.length = k + 1 := ⟨i - a.length - 1, by omega⟩
      rw [hk, standsAt_cons_succ] at hb
      exact .inr (infix_iff_exists_standsAt.2 ⟨k, hb⟩)
  · rintro (h | h)
    · exact h.trans (List.prefix_append _ _).isInfix
    · exact h.trans ((List.suffix_cons c b).trans (List.suffix_append _ _)).isInfix

/-- What does not reach across a character and is not in front of it stands behind it. -/
theorem standsAt_behind {front rest needle : Text} {c : CodePoint} {i : Nat} (hc : c ∉ needle) (hfront : ¬ needle <:+: front) :
    StandsAt (front ++ c :: rest) i needle ↔ ∃ k, i = front.length + 1 + k ∧ StandsAt rest k needle := by
  constructor
  · intro h
    rcases h.before_or_after hc with hb | ha
    · exact absurd (infix_iff_exists_standsAt.2 ⟨i, (standsAt_append_left hb).1 h⟩) hfront
    · obtain ⟨k, rfl⟩ := Nat.exists_eq_add_of_lt ha
      refine ⟨k, by omega, ?_⟩
      rw [standsAt_append_right (by omega), show front.length + k + 1 - front.length = k + 1 by omega] at h
      exact h
  · rintro ⟨k, rfl, hk⟩
    rw [standsAt_append_right (by omega), show front.length + 1 + k - front.length = k + 1 by omega]
    exact hk

/-! ### The functions that search -/

theorem dropPrefix?_isSome_iff {s needle : Text} : (s.dropPrefix? needle).isSome ↔ needle <+: s := by
  rw [Option.isSome_iff_exists]
  constructor
  · rintro ⟨rest, h⟩
    exact ⟨rest, (dropPrefix?_eq_some_iff.1 h).symm⟩
  · rintro ⟨rest, h⟩
    exact ⟨rest, dropPrefix?_eq_some_iff.2 h.symm⟩

theorem dropPrefix?_eq_none_iff {s needle : Text} : s.dropPrefix? needle = none ↔ ¬ needle <+: s := by
  rw [← dropPrefix?_isSome_iff, Bool.not_eq_true, Option.isSome_eq_false_iff, Option.isNone_iff_eq_none]

/-- The search for anything recognised: it stops at the first place where something is. -/
theorem breakAt?_eq_some {found? : Text → Option α} {s before : Text} {x : α}
    (h : breakAt? found? s = some (before, x)) :
    ∃ after, s = before ++ after ∧ found? after = some x ∧ ∀ i < before.length, found? (s.drop i) = none := by
  fun_induction breakAt? found? s generalizing before with
  | case1 =>
    simp only [Option.map_eq_some_iff, Prod.mk.injEq] at h
    obtain ⟨y, hy, rfl, rfl⟩ := h
    exact ⟨[], by simp, hy, by simp⟩
  | case2 c s y hy =>
    simp only [Option.some.injEq, Prod.mk.injEq] at h
    obtain ⟨rfl, rfl⟩ := h
    exact ⟨c :: s, rfl, hy, by simp⟩
  | case3 c s hn b y hb ih =>
    simp only [Option.some.injEq, Prod.mk.injEq] at h
    obtain ⟨rfl, rfl⟩ := h
    obtain ⟨after, rfl, hafter, hfirst⟩ := ih hb
    refine ⟨after, rfl, hafter, fun i hi => ?_⟩
    cases i with
    | zero => exact hn
    | succ i => exact hfirst i (by simpa using hi)
  | case4 => simp at h

/-- The search fails if nothing is recognised at any place. -/
theorem breakAt?_eq_none_iff {found? : Text → Option α} {s : Text} :
    breakAt? found? s = none ↔ ∀ i ≤ s.length, found? (s.drop i) = none := by
  fun_induction breakAt? found? s with
  | case1 => simp
  | case2 c s y hy =>
    simp only [reduceCtorEq, false_iff, not_forall]
    exact ⟨0, by simp, by simp [hy]⟩
  | case3 c s hn b y hb ih =>
    simp only [hb, reduceCtorEq, false_iff, not_forall] at ih ⊢
    obtain ⟨i, hi, hfound⟩ := ih
    exact ⟨i + 1, by simpa using hi, hfound⟩
  | case4 c s hn hb ih =>
    simp only [true_iff]
    intro i hi
    cases i with
    | zero => exact hn
    | succ i => exact (ih.1 hb) i (by simpa using hi)

theorem breakAt?_of_found {found? : Text → Option α} {s : Text} {x : α} (h : found? s = some x) :
    breakAt? found? s = some ([], x) := by
  cases s with
  | nil => simp [breakAt?, h]
  | cons c s => simp [breakAt?, h]

theorem breakOn?_eq_some_iff {s needle a b : Text} :
    s.breakOn? needle = some (a, b) ↔ s = a ++ needle ++ b ∧ FirstAt s a.length needle := by
  constructor
  · intro h
    obtain ⟨after, rfl, hafter, hfirst⟩ := breakAt?_eq_some h
    have hab := dropPrefix?_eq_some_iff.1 hafter
    subst hab
    refine ⟨by simp, ⟨b, by simp⟩, fun j hj hs => ?_⟩
    exact dropPrefix?_eq_none_iff.1 (hfirst j hj) hs
  · rintro ⟨rfl, -, hfirst⟩
    cases hbreak : breakOn? (a ++ needle ++ b) needle with
    | none =>
      have hnone := breakAt?_eq_none_iff.1 hbreak a.length (by simp)
      exact absurd (standsAt_append a needle b) (dropPrefix?_eq_none_iff.1 hnone)
    | some found =>
      obtain ⟨a', b'⟩ := found
      obtain ⟨after, hs, hafter, hfirst'⟩ := breakAt?_eq_some hbreak
      have hab := dropPrefix?_eq_some_iff.1 hafter
      subst hab
      have hle : a'.length ≤ a.length := by
        by_contra hlt
        exact dropPrefix?_eq_none_iff.1 (hfirst' a.length (by omega)) (standsAt_append a needle b)
      have hge : a.length ≤ a'.length := by
        by_contra hlt
        exact hfirst a'.length (by omega) (hs ▸ ⟨b', by simp⟩)
      have hlen : a.length = a'.length := Nat.le_antisymm hge hle
      rw [List.append_assoc] at hs
      obtain ⟨rfl, hrest⟩ := List.append_inj hs hlen
      rw [List.append_cancel_left hrest]

theorem breakOn?_of_not_mem {a b : Text} {c : CodePoint} (h : c ∉ a) : (a ++ c :: b).breakOn? [c] = some (a, b) := by
  refine breakOn?_eq_some_iff.2 ⟨by simp, ?_, fun j hj hs => ?_⟩
  · have := standsAt_append a [c] b
    simpa using this
  · have hget := hs.getElem? (k := 0) (by simp)
    rw [Nat.add_zero, List.getElem?_append_left hj] at hget
    exact h (List.mem_of_getElem? hget)

theorem breakOn?_singleton_eq_some_iff {s a b : Text} {c : CodePoint} :
    s.breakOn? [c] = some (a, b) ↔ s = a ++ c :: b ∧ c ∉ a := by
  constructor
  · intro h
    obtain ⟨rfl, -, hfirst⟩ := breakOn?_eq_some_iff.1 h
    refine ⟨by simp, fun hc => ?_⟩
    obtain ⟨x, y, rfl⟩ := List.append_of_mem hc
    exact hfirst x.length (by simp) (by simpa using standsAt_append x [c] (y ++ [c] ++ b))
  · rintro ⟨rfl, hc⟩
    exact breakOn?_of_not_mem hc

/-- A text is divided at the first `c` in one way only. -/
theorem append_cons_inj {a a' b b' : Text} {c : CodePoint} (h : a ++ c :: b = a' ++ c :: b') (ha : c ∉ a) (ha' : c ∉ a') :
    a = a' ∧ b = b' := by
  have hbreak := breakOn?_of_not_mem (b := b) ha
  rw [h, breakOn?_of_not_mem ha'] at hbreak
  exact (Prod.mk.inj (Option.some.inj hbreak)).imp Eq.symm Eq.symm

/-- A text without `c` that stands in front of a text with a `c` in it stands in front of the part before the `c`. -/
theorem prefix_of_prefix_append_cons {a u s : Text} {c : CodePoint} (hc : c ∉ a) (h : a <+: u ++ c :: s) : a <+: u := by
  have hu : u ++ [c] <+: u ++ c :: s := ⟨s, by simp⟩
  rcases List.prefix_or_prefix_of_prefix h hu with hle | hle
  · rcases List.prefix_concat_iff.1 hle with rfl | hle
    · exact absurd (by simp) hc
    · exact hle
  · exact absurd (hle.subset (by simp)) hc

/-- What is found does not depend on what follows. -/
theorem breakOn?_append {s needle a b : Text} (h : s.breakOn? needle = some (a, b)) (more : Text) :
    (s ++ more).breakOn? needle = some (a, b ++ more) := by
  obtain ⟨rfl, hfirst⟩ := breakOn?_eq_some_iff.1 h
  refine breakOn?_eq_some_iff.2 ⟨List.append_assoc _ _ _, ?_, fun j hj hs => hfirst.2 j hj ?_⟩
  · rw [standsAt_append_left (by simp)]
    exact hfirst.1
  · refine (standsAt_append_left ?_).1 hs
    rw [List.length_append, List.length_append]
    omega

theorem breakOn?_eq_none_iff {s needle : Text} : s.breakOn? needle = none ↔ ¬ needle <:+: s := by
  rw [breakOn?, breakAt?_eq_none_iff, infix_iff_exists_standsAt, not_exists]
  constructor
  · intro h i hi
    by_cases hle : i ≤ s.length
    · exact dropPrefix?_eq_none_iff.1 (h i hle) hi
    · have hs : StandsAt s s.length needle := by
        unfold StandsAt at hi ⊢
        rw [List.drop_of_length_le (by omega)] at hi
        rwa [List.drop_length]
      exact dropPrefix?_eq_none_iff.1 (h s.length (Nat.le_refl _)) hs
  · exact fun h i _ => dropPrefix?_eq_none_iff.2 (h i)

/-- The position that is found is the first at which the text stands. -/
theorem find?_eq_some_iff {s needle : Text} {i : Nat} (hi : i ≤ s.length) :
    s.find? needle = some i ↔ FirstAt s i needle := by
  unfold Text.find?
  constructor
  · intro h
    obtain ⟨⟨a, b⟩, hab, rfl⟩ := Option.map_eq_some_iff.1 h
    exact (breakOn?_eq_some_iff.1 hab).2
  · intro h
    obtain ⟨a, b, rfl, rfl⟩ := (standsAt_iff hi).1 h.1
    rw [breakOn?_eq_some_iff.2 ⟨rfl, h⟩]
    rfl

theorem find?_eq_none_iff {s needle : Text} : s.find? needle = none ↔ ¬ needle <:+: s := by
  rw [Text.find?, Option.map_eq_none_iff, breakOn?_eq_none_iff]

theorem contains_iff {s needle : Text} : s.contains needle = true ↔ needle <:+: s := by
  rw [Text.contains, Text.holds, ← not_iff_not, Bool.not_eq_true, Option.isSome_eq_false_iff,
    Option.isNone_iff_eq_none]
  exact breakOn?_eq_none_iff

/-- A text that occurs has a first position. -/
theorem exists_firstAt {s needle : Text} (h : needle <:+: s) : ∃ i ≤ s.length, FirstAt s i needle := by
  cases hfind : s.find? needle with
  | none => exact absurd h (find?_eq_none_iff.1 hfind)
  | some i =>
    obtain ⟨⟨a, b⟩, hab, rfl⟩ := Option.map_eq_some_iff.1 hfind
    obtain ⟨rfl, hfirst⟩ := breakOn?_eq_some_iff.1 hab
    exact ⟨a.length, by simp, hfirst⟩

/-! ### Trimming -/

theorem trimEnd_isPrefix (s : Text) : s.trimEnd <+: s := by
  rw [trimEnd, ← List.reverse_suffix, List.reverse_reverse]
  exact List.dropWhile_suffix _

/-- A trimmed text stands in the text. -/
theorem trim_isInfix (s : Text) : s.trim <:+: s := (trimEnd_isPrefix _).isInfix.trans (List.dropWhile_suffix _).isInfix

/-- A trimmed text does not begin with white space. -/
theorem isSpace_of_head?_trim {s : Text} {c : CodePoint} (h : s.trim.head? = some c) : c.isSpace = false := by
  obtain ⟨rest, hrest⟩ := trimEnd_isPrefix s.trimStart
  have hhead : s.trimStart.head? = some c := by rw [← hrest, List.head?_append, ← trim, h, Option.some_or]
  have hnot := List.head?_dropWhile_not (fun c : CodePoint => c.isSpace) s
  rw [trimStart] at hhead
  rw [hhead] at hnot
  simpa using hnot

/-- Trimming leaves a text as it is that has white space at neither end. -/
theorem trim_eq_self {s : Text} (hhead : ∀ c, s.head? = some c → c.isSpace = false)
    (hlast : ∀ c, s.getLast? = some c → c.isSpace = false) : s.trim = s := by
  have hkeep : ∀ t : Text, (∀ c, t.head? = some c → c.isSpace = false) → t.dropWhile (·.isSpace) = t := by
    intro t ht
    cases t with
    | nil => rfl
    | cons c t => exact List.dropWhile_cons_of_neg (by simp [ht c rfl])
  rw [trim, trimStart, hkeep s hhead, trimEnd, hkeep s.reverse fun c hc => hlast c (by rwa [List.head?_reverse] at hc),
    List.reverse_reverse]

theorem trim_trim (s : Text) : s.trim.trim = s.trim := by
  refine trim_eq_self (fun c hc => isSpace_of_head?_trim hc) fun c hc => ?_
  have hnot := List.head?_dropWhile_not (fun c : CodePoint => c.isSpace) s.trimStart.reverse
  rw [trim, trimEnd, List.getLast?_reverse] at hc
  rw [hc] at hnot
  simpa using hnot

end EquationExport.Text
