import Mathlib.Data.Multiset.UnionInter
import EquationExport.Proofs.Latex.Nesting

/-!
# How deep matrix environments are nested in any text

Openings and ends of matrix environments may stand anywhere in a formula: ends may be missing, environments may cross,
and marks may stand in the argument of an opening. How deep they are nested is said for all such texts alike. At an
opening that has an end of its name behind it, each name counts with the openings so far that are not ended yet, but
with no more of them than there are ends of the name to come; an opening without an end is never expanded and does not
count. An end in the square brackets of an opening ends nothing, since the expansion of that opening may take the
argument away, and the end with it.
-/

namespace EquationExport.Latex

variable {e : Environment} {s t u : Text} {c : CodePoint} {n : Nat}

/-! ### What is read at a place -/

/-- What a formula shows at a place: an opening, with a bracket behind it or without, an end, or a closing bracket. -/
inductive Sign where
  | opens (e : Environment) (bracketed : Bool)
  | closes (e : Environment)
  | bracket
  deriving DecidableEq

/-- The sign at the front of a text. -/
def sign? (s : Text) : Option Sign :=
  match environments.find? fun e => s.startsWith (opening e.name) with
  | some e => some (.opens e (s.startsWith (opening e.name ++ "[")))
  | none => match environments.find? fun e => s.startsWith (closing e.name) with
    | some e => some (.closes e)
    | none => if s.startsWith "]" then some .bracket else none

theorem find?_congr {l : List α} {p q : α → Bool} (h : ∀ a ∈ l, p a = q a) : l.find? p = l.find? q := by
  rw [← List.head?_filter, ← List.head?_filter, List.filter_congr h]

/-- The one environment of the list that satisfies a condition. -/
theorem find?_environments {p : Environment → Bool} (he : e ∈ environments) (hp : p e = true)
    (hunique : ∀ e' ∈ environments, p e' = true → e' = e) : environments.find? p = some e := by
  cases hfind : environments.find? p with
  | none => exact absurd hp (List.find?_eq_none.1 hfind e he)
  | some e' => rw [hunique e' (List.mem_of_find?_eq_some hfind) (List.find?_some hfind)]

theorem not_opening_of_closing {name name' : Text} : ¬ opening name' <+: closing name ++ s := by
  rintro ⟨more, hmore⟩
  have hsecond : some ('b' : CodePoint) = some 'e' := congrArg (·[1]?) hmore
  exact absurd hsecond (by decide)

theorem sign?_opening (he : e ∈ environments) : sign? (opening e.name ++ s) = some (.opens e (s.startsWith "[")) := by
  have hfind : environments.find? (fun e' => (opening e.name ++ s).startsWith (opening e'.name)) = some e :=
    find?_environments he (startsWith_iff.2 (List.prefix_append _ _))
      fun e' he' hstarts => eq_of_opening_front he he' (startsWith_iff.1 hstarts)
  have hbracket : (opening e.name ++ s).startsWith (opening e.name ++ "[") = s.startsWith "[" := by
    rw [Bool.eq_iff_iff, startsWith_iff, startsWith_iff, List.prefix_append_right_inj]
  rw [sign?, hfind, ← hbracket]

theorem sign?_closing (he : e ∈ environments) : sign? (closing e.name ++ s) = some (.closes e) := by
  have hnone : environments.find? (fun e' => (closing e.name ++ s).startsWith (opening e'.name)) = none :=
    List.find?_eq_none.2 fun e' _ hstarts => not_opening_of_closing (startsWith_iff.1 hstarts)
  have hfind : environments.find? (fun e' => (closing e.name ++ s).startsWith (closing e'.name)) = some e :=
    find?_environments he (startsWith_iff.2 (List.prefix_append _ _))
      fun e' he' hstarts => eq_of_closing_front he he' (startsWith_iff.1 hstarts)
  rw [sign?, hnone, hfind]

/-- Where no mark stands, a closing bracket alone is a sign. -/
theorem sign?_of_mark? (h : mark? s = none) : sign? s = if s.startsWith "]" then some .bracket else none := by
  have hmarks := mark?_eq_none_iff.1 h
  have hopening : environments.find? (fun e => s.startsWith (opening e.name)) = none :=
    List.find?_eq_none.2 fun e he hstarts => hmarks _ (opening_mem he) (startsWith_iff.1 hstarts)
  have hclosing : environments.find? (fun e => s.startsWith (closing e.name)) = none :=
    List.find?_eq_none.2 fun e he hstarts => hmarks _ (closing_mem he) (startsWith_iff.1 hstarts)
  rw [sign?, hopening, hclosing]

theorem exists_of_sign?_opens {bracketed : Bool} (h : sign? s = some (.opens e bracketed)) :
    e ∈ environments ∧ ∃ after, s = opening e.name ++ after := by
  unfold sign? at h
  split at h
  · next e' hfind =>
    obtain ⟨rfl, -⟩ := Sign.opens.inj (Option.some.inj h)
    have hstarts := List.find?_some hfind
    obtain ⟨after, rfl⟩ := startsWith_iff.1 hstarts
    exact ⟨List.mem_of_find?_eq_some hfind, after, rfl⟩
  · split at h
    · cases h
    · split at h <;> cases h

theorem exists_of_sign?_closes (h : sign? s = some (.closes e)) :
    e ∈ environments ∧ ∃ after, s = closing e.name ++ after := by
  unfold sign? at h
  split at h
  · cases h
  · split at h
    · next e' hfind =>
      obtain rfl := Sign.closes.inj (Option.some.inj h)
      have hstarts := List.find?_some hfind
      obtain ⟨after, rfl⟩ := startsWith_iff.1 hstarts
      exact ⟨List.mem_of_find?_eq_some hfind, after, rfl⟩
    · split at h <;> cases h

theorem startsWith_bracket : Text.startsWith (c :: s) "]" = true ↔ c = ']' := by
  rw [startsWith_iff]
  exact List.cons_prefix_cons.trans ⟨fun h => h.1.symm, fun h => ⟨h.symm, List.nil_prefix⟩⟩

theorem eq_of_sign?_bracket (h : sign? (c :: s) = some .bracket) : c = ']' := by
  unfold sign? at h
  split at h
  · cases h
  · split at h
    · cases h
    · split at h
      · next hstarts => exact startsWith_bracket.1 hstarts
      · cases h

/-- A sign at a code point depends on what follows up to the next backslash. -/
theorem sign?_cons_congr (h : reach s = reach t) : sign? (c :: s) = sign? (c :: t) := by
  by_cases hc : c = '\\'
  · subst hc
    have hprefix : ∀ tail : Text, ('\\' : CodePoint) ∉ tail →
        Text.startsWith ('\\' :: s) ('\\' :: tail) = Text.startsWith ('\\' :: t) ('\\' :: tail) := by
      intro tail htail
      rw [Bool.eq_iff_iff, startsWith_iff, startsWith_iff, List.prefix_cons_inj, List.prefix_cons_inj,
        prefix_iff_prefix_reach htail, h, ← prefix_iff_prefix_reach htail]
    have hmark : ∀ m ∈ marks, Text.startsWith ('\\' :: s) m = Text.startsWith ('\\' :: t) m := by
      intro m hm
      obtain ⟨tail, rfl, htail⟩ := exists_of_mem_marks hm
      exact hprefix tail htail
    have hbracket : ∀ e ∈ environments,
        Text.startsWith ('\\' :: s) (opening e.name ++ "[") = Text.startsWith ('\\' :: t) (opening e.name ++ "[") := by
      intro e he
      obtain ⟨tail, hopening, htail⟩ := exists_of_mem_marks (opening_mem he)
      rw [hopening]
      refine hprefix (tail ++ "[") fun hmem => ?_
      rcases List.mem_append.1 hmem with hmem | hmem
      · exact htail hmem
      · exact absurd hmem (by decide)
    have hopens : environments.find? (fun e => Text.startsWith ('\\' :: s) (opening e.name)) =
        environments.find? fun e => Text.startsWith ('\\' :: t) (opening e.name) :=
      find?_congr fun e he => hmark _ (opening_mem he)
    have hcloses : environments.find? (fun e => Text.startsWith ('\\' :: s) (closing e.name)) =
        environments.find? fun e => Text.startsWith ('\\' :: t) (closing e.name) :=
      find?_congr fun e he => hmark _ (closing_mem he)
    unfold sign?
    rw [hopens, hcloses]
    cases hfind : environments.find? fun e => Text.startsWith ('\\' :: t) (opening e.name) with
    | some e => exact congrArg (fun b => some (Sign.opens e b)) (hbracket e (List.mem_of_find?_eq_some hfind))
    | none => rfl
  · rw [sign?_of_mark? (mark?_cons_of_ne hc s), sign?_of_mark? (mark?_cons_of_ne hc t)]
    exact if_congr (startsWith_bracket.trans startsWith_bracket.symm) rfl rfl

/-- Behind its backslash no sign is read in a mark. -/
theorem passes_tail {tail : Text} (hm : ('\\' : CodePoint) :: tail ∈ marks) (s : Text) : Text.Passes sign? tail s := by
  obtain ⟨-, htail, -, hbracket⟩ := shape_of_marks _ hm
  intro u hu hsuffix
  cases u with
  | nil => exact absurd rfl hu
  | cons c u =>
    have hmem : c ∈ tail := hsuffix.subset List.mem_cons_self
    have hc : c ≠ '\\' := fun heq => htail (heq ▸ hmem)
    have hnot : ¬ Text.startsWith (c :: (u ++ s)) "]" = true :=
      fun hstarts => hbracket (List.mem_cons_of_mem _ (startsWith_bracket.1 hstarts ▸ hmem))
    exact (sign?_of_mark? (mark?_cons_of_ne hc (u ++ s))).trans (if_neg hnot)

/-! ### Ends to come -/

/-- The environments that are ended in a text, each as often as its end stands there. -/
def ends : Text → Multiset Environment
  | [] => 0
  | c :: s => match sign? (c :: s) with
    | some (.closes e) => e ::ₘ ends s
    | _ => ends s

theorem ends_cons_closes (h : sign? (c :: s) = some (.closes e)) : ends (c :: s) = e ::ₘ ends s := by
  rw [ends, h]

theorem ends_cons (h : ∀ e, sign? (c :: s) ≠ some (.closes e)) : ends (c :: s) = ends s := by
  rw [ends]
  split
  · next e heq => exact absurd heq (h e)
  · rfl

theorem ends_le_cons (c : CodePoint) (s : Text) : ends s ≤ ends (c :: s) := by
  rw [ends]
  split
  · exact Multiset.le_cons_self _ _
  · exact le_refl _

theorem ends_le_append (u s : Text) : ends s ≤ ends (u ++ s) := by
  induction u with
  | nil => exact le_refl _
  | cons c u ih => exact ih.trans (ends_le_cons c _)

theorem ends_append_of_passes (h : Text.Passes sign? u s) : ends (u ++ s) = ends s := by
  induction u with
  | nil => rfl
  | cons c u ih =>
    obtain ⟨hfirst, hrest⟩ := Text.passes_cons.1 h
    rw [List.cons_append, ends_cons (by simp [hfirst]), ih hrest]

theorem ends_opening (he : e ∈ environments) : ends (opening e.name ++ s) = ends s := by
  have hsign := sign?_opening (s := s) he
  have hm := opening_mem he
  obtain ⟨tail, htail, -⟩ := exists_of_mem_marks hm
  rw [htail] at hsign hm ⊢
  rw [List.cons_append] at hsign ⊢
  rw [ends_cons (by simp [hsign]), ends_append_of_passes (passes_tail hm s)]

theorem ends_closing (he : e ∈ environments) : ends (closing e.name ++ s) = e ::ₘ ends s := by
  have hsign := sign?_closing (s := s) he
  have hm := closing_mem he
  obtain ⟨tail, htail, -⟩ := exists_of_mem_marks hm
  rw [htail] at hsign hm ⊢
  rw [List.cons_append] at hsign ⊢
  rw [ends_cons_closes hsign, ends_append_of_passes (passes_tail hm s)]

/-- An end is somewhere in the text. -/
theorem infix_of_mem_ends (h : e ∈ ends s) : closing e.name <:+: s := by
  induction s with
  | nil => exact absurd h (Multiset.notMem_zero e)
  | cons c s ih =>
    have hbehind : e ∈ ends s → closing e.name <:+: c :: s := fun hmem => (ih hmem).trans (List.suffix_cons c s).isInfix
    rw [ends] at h
    split at h
    · next e' hsign =>
      rcases Multiset.mem_cons.1 h with rfl | hmem
      · obtain ⟨-, after, hafter⟩ := exists_of_sign?_closes hsign
        exact ⟨[], after, by simpa using hafter.symm⟩
      · exact hbehind hmem
    · exact hbehind h

/-! ### Environments that wait for their ends -/

/-- The environments that are opened and not ended, and the brackets behind openings that are not closed. -/
structure Pending where
  opened : Multiset Environment
  brackets : Nat

namespace Pending

variable {p q : Pending}

/-- What is pending behind a sign. -/
def next (p : Pending) : Option Sign → Pending
  | some (.opens e bracketed) => ⟨e ::ₘ p.opened, if bracketed then p.brackets + 1 else p.brackets⟩
  | some (.closes e) => if p.brackets = 0 then ⟨p.opened.erase e, 0⟩ else p
  | some .bracket => ⟨p.opened, p.brackets - 1⟩
  | none => p

/-- How many environments are nested at the front of a text, if an opening stands there that has an end behind it. -/
def level (p : Pending) (s : Text) : Nat :=
  match sign? s with
  | some (.opens e _) => if e ∈ ends s then ((e ::ₘ p.opened) ∩ ends s).card else 0
  | _ => 0

/-- The most environments that are nested at a place of a text. -/
def deepest (p : Pending) : Text → Nat
  | [] => 0
  | c :: s => max (p.level (c :: s)) ((p.next (sign? (c :: s))).deepest s)

/-- What is pending behind `u`, where `s` follows. -/
def after (p : Pending) : Text → Text → Pending
  | [], _ => p
  | c :: u, s => (p.next (sign? (c :: (u ++ s)))).after u s

/-- Nothing is pending but what is pending in the other. -/
def Within (p q : Pending) : Prop := p.opened ≤ q.opened ∧ p.brackets ≤ q.brackets

/-- One environment more is open. -/
def inside (e : Environment) (p : Pending) : Pending := ⟨e ::ₘ p.opened, p.brackets⟩

theorem Within.trans {r : Pending} (h : p.Within q) (h' : q.Within r) : p.Within r := ⟨h.1.trans h'.1, h.2.trans h'.2⟩

theorem within_refl (p : Pending) : p.Within p := ⟨le_refl _, le_refl _⟩

theorem Within.next (h : p.Within q) (sign : Option Sign) : (p.next sign).Within (q.next sign) := by
  obtain ⟨hopened, hbrackets⟩ := h
  rcases sign with - | ⟨e, bracketed⟩ | e | -
  · exact ⟨hopened, hbrackets⟩
  · refine ⟨Multiset.cons_le_cons e hopened, ?_⟩
    cases bracketed with
    | false => exact hbrackets
    | true => exact Nat.succ_le_succ hbrackets
  · by_cases hq : q.brackets = 0
    · have hp : p.brackets = 0 := by omega
      simp only [Pending.next, if_pos hp, if_pos hq]
      exact ⟨Multiset.erase_le_erase e hopened, le_refl 0⟩
    · simp only [Pending.next, if_neg hq]
      split
      · exact ⟨(Multiset.erase_le e _).trans hopened, Nat.zero_le _⟩
      · exact ⟨hopened, hbrackets⟩
  · exact ⟨hopened, Nat.sub_le_sub_right hbrackets 1⟩

/-- An environment that is open stays open, as long as it is not ended. -/
theorem next_inside {sign : Option Sign} (hsign : sign ≠ some (.closes e)) :
    (p.inside e).next sign = (p.next sign).inside e := by
  rcases sign with - | ⟨e', bracketed⟩ | e' | -
  · rfl
  · exact congrArg (Pending.mk · _) (Multiset.cons_swap _ _ _)
  · have hne : e ≠ e' := by
      rintro rfl
      exact hsign rfl
    by_cases hp : p.brackets = 0
    · simp [Pending.next, inside, hp, Multiset.erase_cons_tail _ hne]
    · simp [Pending.next, inside, hp]
  · rfl

/-- What is left behind the end of an environment that was open. -/
theorem Within.of_inside (h : (p.inside e).Within q) : p.Within (q.next (some (.closes e))) := by
  obtain ⟨hopened, hbrackets⟩ := h
  simp only [Pending.next]
  split
  · next hzero =>
    have herase := Multiset.erase_le_erase e hopened
    rw [inside, Multiset.erase_cons_head] at herase
    exact ⟨herase, hbrackets.trans (le_of_eq hzero)⟩
  · exact ⟨(Multiset.le_cons_self _ _).trans hopened, hbrackets⟩

/-! ### Along a text -/

theorem deepest_append_le (p : Pending) (u s : Text) : (p.after u s).deepest s ≤ p.deepest (u ++ s) := by
  induction u generalizing p with
  | nil => exact le_refl _
  | cons c u ih => exact (ih _).trans (le_max_right _ _)

theorem level_le_deepest (p : Pending) (hs : s ≠ []) : p.level s ≤ p.deepest s := by
  cases s with
  | nil => exact absurd rfl hs
  | cons c s => exact le_max_left _ _

theorem level_of_not_opens (h : ∀ e bracketed, sign? s ≠ some (.opens e bracketed)) : p.level s = 0 := by
  unfold level
  split
  · next e bracketed heq => exact absurd heq (h e bracketed)
  · rfl

/-- Where no mark is read, brackets are closed at most. -/
theorem deepest_append_of_passes (h : Text.Passes mark? u s) :
    p.deepest (u ++ s) = (p.after u s).deepest s ∧ (p.after u s).Within p ∧ ends (u ++ s) = ends s := by
  induction u generalizing p with
  | nil => exact ⟨rfl, within_refl p, rfl⟩
  | cons c u ih =>
    obtain ⟨hfirst, hrest⟩ := Text.passes_cons.1 h
    obtain ⟨hdeepest, hwithin, hends⟩ := ih (p := p.next (sign? (c :: (u ++ s)))) hrest
    have hsign := sign?_of_mark? hfirst
    have hopens : ∀ e bracketed, sign? (c :: (u ++ s)) ≠ some (.opens e bracketed) := by
      intro e bracketed
      rw [hsign]
      split <;> simp
    have hcloses : ∀ e, sign? (c :: (u ++ s)) ≠ some (.closes e) := by
      intro e
      rw [hsign]
      split <;> simp
    refine ⟨?_, hwithin.trans ?_, ?_⟩
    · rw [List.cons_append, deepest, level_of_not_opens hopens, hdeepest, Nat.zero_max]
      rfl
    · rw [hsign]
      split
      · exact ⟨le_refl _, Nat.sub_le _ _⟩
      · exact within_refl p
    · rw [List.cons_append, ends_cons hcloses, hends]

/-- Where no sign is read, all stays as it is. -/
theorem after_of_passes (h : Text.Passes sign? u s) : p.after u s = p ∧ p.deepest (u ++ s) = p.deepest s := by
  induction u generalizing p with
  | nil => exact ⟨rfl, rfl⟩
  | cons c u ih =>
    obtain ⟨hfirst, hrest⟩ := Text.passes_cons.1 h
    obtain ⟨hafter, hdeepest⟩ := ih (p := p) hrest
    rw [after, List.cons_append, deepest, level_of_not_opens (by simp [hfirst]), Nat.zero_max, hfirst]
    exact ⟨hafter, hdeepest⟩

theorem after_mark {m : Text} (hm : m ∈ marks) : p.after m s = p.next (sign? (m ++ s)) := by
  obtain ⟨tail, rfl, -⟩ := exists_of_mem_marks hm
  exact (after_of_passes (passes_tail hm s)).1

/-- In brackets nothing is ended. -/
theorem within_after (hp : 0 < p.brackets) (hu : (']' : CodePoint) ∉ u) : p.Within (p.after u s) := by
  induction u generalizing p with
  | nil => exact within_refl p
  | cons c u ih =>
    have hnext : p.Within (p.next (sign? (c :: (u ++ s)))) := by
      rcases hsign : sign? (c :: (u ++ s)) with - | ⟨e, bracketed⟩ | e | -
      · exact within_refl p
      · refine ⟨Multiset.le_cons_self _ _, ?_⟩
        simp only [Pending.next]
        split
        · exact Nat.le_succ _
        · exact le_refl _
      · rw [Pending.next, if_neg (by omega)]
        exact within_refl p
      · exact absurd (List.mem_cons.2 (.inl (eq_of_sign?_bracket hsign).symm)) hu
    exact hnext.trans (ih (hp.trans_le hnext.2) fun hmem => hu (List.mem_cons_of_mem _ hmem))

theorem after_append (p : Pending) (u v s : Text) : p.after (u ++ v) s = (p.after u (v ++ s)).after v s := by
  induction u generalizing p with
  | nil => rfl
  | cons c u ih =>
    rw [List.cons_append, after, after, ih, List.append_assoc]

/-- The bracket that closes an argument. -/
theorem after_writeArgument (p : Pending) (t s : Text) :
    p.after (writeArgument (some t)) s = (p.after (("[" : Text) ++ t) (("]" : Text) ++ s)).next (some .bracket) := by
  have hlast : sign? (("]" : Text) ++ s) = some .bracket :=
    (sign?_of_mark? (mark?_cons_of_ne (by decide) s)).trans (if_pos (startsWith_bracket.2 rfl))
  rw [writeArgument, after_append, ← hlast]
  rfl

/-- Behind the opening of an environment and its argument one environment more is open. -/
theorem inside_within_after (he : e ∈ environments) {argument : Option Text} (hargument : ∀ t ∈ argument, (']' : CodePoint) ∉ t)
    (h : p.Within q) : (p.inside e).Within (q.after (opening e.name ++ writeArgument argument) s) := by
  have hopened : (q.after (opening e.name) (writeArgument argument ++ s)) =
      q.next (some (.opens e ((writeArgument argument ++ s).startsWith "["))) := by
    rw [after_mark (opening_mem he), sign?_opening he]
  rw [after_append, hopened]
  cases argument with
  | none =>
    refine ⟨Multiset.cons_le_cons e h.1, h.2.trans ?_⟩
    show q.brackets ≤ if _ then _ else _
    split
    · exact Nat.le_succ _
    · exact le_refl _
  | some t =>
    have ht : (']' : CodePoint) ∉ ("[" : Text) ++ t := by
      rw [List.mem_append, not_or]
      exact ⟨by decide, hargument t rfl⟩
    have hbracketed : (writeArgument (some t) ++ s).startsWith "[" = true := startsWith_iff.2 ⟨t ++ (("]" : Text) ++ s), by
      simp [writeArgument]⟩
    obtain ⟨hkept, hopen⟩ := within_after (p := q.next (some (.opens e true))) (s := ("]" : Text) ++ s) (Nat.succ_pos _) ht
    rw [hbracketed, after_writeArgument]
    exact ⟨(Multiset.cons_le_cons e h.1).trans hkept, h.2.trans (Nat.le_sub_one_of_lt hopen)⟩

/-! ### More that is open -/

theorem Within.level_le (h : p.Within q) (s : Text) : p.level s ≤ q.level s := by
  unfold level
  split
  · next e bracketed _ =>
    split
    · refine Multiset.card_le_card (Multiset.le_inter ?_ Multiset.inter_le_right)
      exact Multiset.inter_le_left.trans (Multiset.cons_le_cons e h.1)
    · exact le_refl 0
  · exact le_refl 0

theorem Within.deepest_le (h : p.Within q) (s : Text) : p.deepest s ≤ q.deepest s := by
  induction s generalizing p q with
  | nil => exact le_refl 0
  | cons c s ih => exact max_le_max (h.level_le _) (ih (h.next _))

/-- No more environments are nested than are open. -/
theorem level_le_card (p : Pending) (s : Text) : p.level s ≤ p.opened.card + 1 := by
  unfold level
  split
  · next e bracketed _ =>
    split
    · exact (Multiset.card_le_card Multiset.inter_le_left).trans (le_of_eq (Multiset.card_cons e _))
    · exact Nat.zero_le _
  · exact Nat.zero_le _

theorem deepest_mark {m : Text} (hm : m ∈ marks) :
    p.deepest (m ++ s) = max (p.level (m ++ s)) ((p.next (sign? (m ++ s))).deepest s) := by
  obtain ⟨tail, rfl, -⟩ := exists_of_mem_marks hm
  exact congrArg (max _) (after_of_passes (passes_tail hm s)).2

/-- An argument is passed, and its brackets are closed behind it. -/
theorem deepest_writeArgument {argument : Option Text} (hargument : ∀ t ∈ argument, ∀ m ∈ marks, ¬ m <:+: t)
    {bracketed : Bool} (hbracketed : bracketed = true → argument.isSome) (opened : Multiset Environment) (s : Text) :
    deepest ⟨opened, if bracketed then 1 else 0⟩ (writeArgument argument ++ s) ≤ deepest ⟨opened, 0⟩ s := by
  have hpasses := passes_writeArgument hargument s
  rw [(deepest_append_of_passes hpasses).1]
  refine Within.deepest_le ?_ s
  cases argument with
  | none =>
    cases bracketed with
    | false => exact within_refl _
    | true => cases hbracketed rfl
  | some t =>
    obtain ⟨-, hwithin, -⟩ :=
      deepest_append_of_passes (p := ⟨opened, if bracketed then 1 else 0⟩) (Text.passes_append.1 hpasses).1
    rw [after_writeArgument]
    refine ⟨hwithin.1, Nat.sub_le_of_le_add (hwithin.2.trans ?_)⟩
    cases bracketed <;> simp

/-- In a formula whose environments are balanced no more are nested than are open at a time. -/
theorem deepest_written {items : List Item} {opened : Multiset Environment} (hclear : IsClear items)
    (hruns : Runs n opened items) : deepest ⟨opened, 0⟩ (written items) ≤ n := by
  induction items generalizing opened with
  | nil => exact Nat.zero_le n
  | cons item rest ih =>
    cases item with
    | text t =>
      obtain ⟨hdeepest, hwithin, -⟩ := deepest_append_of_passes (p := ⟨opened, 0⟩) hclear.1
      rw [written_cons, Item.write, hdeepest]
      exact (hwithin.deepest_le _).trans (ih hclear.2 hruns)
    | opens e argument =>
      obtain ⟨he, hargument, hrest⟩ := hclear
      obtain ⟨hlt, hruns⟩ := hruns
      rw [written_cons, Item.write, List.append_assoc, deepest_mark (opening_mem he), sign?_opening he]
      refine max_le ((level_le_card _ _).trans hlt) ((deepest_writeArgument ?_ ?_ _ _).trans (ih hrest hruns))
      · rintro t rfl
        exact hargument.2
      · intro hstarts
        cases argument with
        | some t => rfl
        | none =>
          obtain ⟨more, hmore⟩ := startsWith_iff.1 hstarts
          exact absurd (congrArg List.head? hmore.symm) hargument
    | closes e =>
      obtain ⟨he, hrest⟩ := hclear
      have hlevel : level ⟨opened, 0⟩ (closing e.name ++ written rest) = 0 :=
        level_of_not_opens (by simp [sign?_closing he])
      rw [written_cons, Item.write, deepest_mark (closing_mem he), hlevel, Nat.zero_max, sign?_closing he]
      exact ih hrest hruns.2

end Pending

/-- How deep matrix environments are nested in a text. -/
def nesting (s : Text) : Nat := Pending.deepest ⟨0, 0⟩ s

/-- In a formula with balanced environments no more are nested than stand in one another. -/
theorem nesting_write {source : Source} (hproper : source.IsProper) : nesting source.write ≤ source.depth := by
  have hclear : IsClear source.toItems := List.append_nil source.toItems ▸ Source.isClear_toItems hproper trivial (.inl rfl)
  have hruns : Runs source.depth 0 source.toItems := List.append_nil source.toItems ▸
    Source.runs_toItems (le_of_eq (by simp)) (show Runs source.depth 0 [] from rfl)
  rw [← source.written_toItems]
  exact Pending.deepest_written hclear hruns

end EquationExport.Latex
