import EquationExport.Proofs.Omml.Faithful

/-!
# Partners among delimiters

The children of a container are read from left to right, and what is open is kept as a stack. A delimiter that closes
the one on top is its partner; one that does not is put on top if it can open, and spoils the reading if it cannot. So
bars, which close what they open, take turns at being the first and the second of a pair on each level.

Promotion knows nothing of this. What it makes is a nest: pairs of delimiters, each around the next, around an object
that is none. A nest leaves the stack as it found it but for the places of bars, so that unlike delimiters of a nest are
partners. Bars of a nest are partners as long as none of them closes what is open before.
-/

namespace EquationExport.Omml

open Xml Xml.Node Repair

variable {l : List Node} {i j n : Nat} {t : Text}

/-! ### Delimiters -/

theorem closing?_eq_some_iff {opening close : Text} :
    closing? opening = some close ↔ ∃ pair ∈ delimiterPairs, opening = [pair.1] ∧ close = [pair.2] := by
  constructor
  · intro h
    obtain ⟨pair, hfind, rfl⟩ := Option.map_eq_some_iff.1 h
    have hopening : [pair.1] = opening := by simpa using List.find?_some hfind
    exact ⟨pair, List.mem_of_find?_eq_some hfind, hopening.symm, rfl⟩
  · have hall : ∀ pair ∈ delimiterPairs, closing? [pair.1] = some [pair.2] := by decide
    rintro ⟨pair, hpair, rfl, rfl⟩
    exact hall pair hpair

/-- A delimiter that is closed by another one closes nothing itself. -/
theorem closing?_ne_of_unlike {opening close : Text} (h : closing? opening = some close) (hunlike : opening ≠ close)
    (other : Text) : closing? other ≠ some opening := by
  have hall : ∀ pair ∈ delimiterPairs, ∀ pair' ∈ delimiterPairs, pair'.2 = pair.1 → pair.1 = pair.2 := by decide
  intro hother
  obtain ⟨pair, hpair, rfl, rfl⟩ := closing?_eq_some_iff.1 h
  obtain ⟨pair', hpair', -, heq⟩ := closing?_eq_some_iff.1 hother
  exact hunlike (by rw [hall pair hpair pair' hpair' (List.cons.inj heq).1.symm])

/-- Only a bar is closed by a bar. -/
theorem eq_of_closing?_self {bar opening : Text} (hbar : closing? bar = some bar) (h : closing? opening = some bar) :
    opening = bar := by
  have hall : ∀ pair ∈ delimiterPairs, ∀ pair' ∈ delimiterPairs, pair.1 = pair.2 → pair'.2 = pair.2 → pair'.1 = pair.1 := by
    decide
  obtain ⟨pair, hpair, rfl, heq⟩ := closing?_eq_some_iff.1 hbar
  obtain ⟨pair', hpair', rfl, heq'⟩ := closing?_eq_some_iff.1 h
  have hsame := (List.cons.inj heq).1
  rw [hall pair hpair pair' hpair' hsame ((List.cons.inj heq').1.symm.trans hsame)]

/-! ### Readings -/

/-- The object at a place; a comment if there is none. -/
def nodeAt (l : List Node) (i : Nat) : Node := l[i]?.getD (.comment [] [])

/-- The text of the object at a place. -/
def textAt (l : List Node) (i : Nat) : Text := (nodeAt l i).glyphs

/-- What has been read: the delimiters that are open, the last one first, and the places of the pairs. -/
structure Reading where
  pending : List (Nat × Text)
  partners : List (Nat × Nat)
  deriving DecidableEq

namespace Reading

/-- A text that closes nothing: it is open now if it can open, and spoils the reading if it can only close. -/
def enter (r : Reading) (i : Nat) (t : Text) : Option Reading :=
  if (closing? t).isSome then some ⟨(i, t) :: r.pending, r.partners⟩ else if isClosing t then none else some r

/-- Reads a text at a place. -/
def next (r : Reading) (i : Nat) (t : Text) : Option Reading :=
  match r.pending with
  | [] => r.enter i t
  | (k, opening) :: pending =>
    if closing? opening = some t then some ⟨pending, (k, i) :: r.partners⟩ else r.enter i t

/-- Reads the objects at some places, one after the other. -/
def along (l : List Node) (r : Reading) (places : List Nat) : Option Reading :=
  places.foldlM (fun r i => r.next i (textAt l i)) r

end Reading

/-- The places of delimiters that are partners; none if the delimiters are not well nested. -/
def partners? (l : List Node) : Option (List (Nat × Nat)) :=
  ((Reading.along l ⟨[], []⟩ (List.range l.length)).filter (·.pending.isEmpty)).map (·.partners)

namespace Reading

variable {r r' : Reading}

/-- What is on top is not closed by the text. -/
def Above (t : Text) (pending : List (Nat × Text)) : Prop := ∀ k opening rest, pending = (k, opening) :: rest → closing? opening ≠ some t

/-- All that reading one text can do. -/
theorem next_cases (h : r.next i t = some r') :
    (∃ k opening rest, r.pending = (k, opening) :: rest ∧ closing? opening = some t ∧ r' = ⟨rest, (k, i) :: r.partners⟩) ∨
      (Above t r.pending ∧ (closing? t).isSome = true ∧ r' = ⟨(i, t) :: r.pending, r.partners⟩) ∨
      (Above t r.pending ∧ closing? t = none ∧ r' = r) := by
  have henter : Above t r.pending → r.enter i t = some r' →
      (Above t r.pending ∧ (closing? t).isSome = true ∧ r' = ⟨(i, t) :: r.pending, r.partners⟩) ∨
        (Above t r.pending ∧ closing? t = none ∧ r' = r) := by
    intro habove h
    unfold enter at h
    split at h
    · next hopens => exact .inl ⟨habove, hopens, (Option.some.inj h).symm⟩
    · next hopens =>
      split at h
      · cases h
      · exact .inr ⟨habove, by simpa using hopens, (Option.some.inj h).symm⟩
  unfold next at h
  split at h
  · next hpending => exact .inr (henter (fun k opening rest heq => by rw [hpending] at heq; cases heq) h)
  · next k opening rest hpending =>
    split at h
    · next hcloses => exact .inl ⟨k, opening, rest, hpending, hcloses, (Option.some.inj h).symm⟩
    · next hcloses =>
      refine .inr (henter (fun k' opening' rest' heq => ?_) h)
      rw [hpending] at heq
      cases heq
      exact hcloses

theorem along_append (l : List Node) (r : Reading) (places more : List Nat) :
    r.along l (places ++ more) = (r.along l places).bind fun r => r.along l more := List.foldlM_append ..

theorem along_singleton (l : List Node) (r : Reading) (i : Nat) : r.along l [i] = r.next i (textAt l i) := by
  simp [along]

/-- Two delimiters and what stands between them are read one after the other. -/
theorem exists_of_along_pair {places : List Nat} (h : r.along l (i :: (places ++ [j])) = some r') :
    ∃ r₁ r₂, r.next i (textAt l i) = some r₁ ∧ r₁.along l places = some r₂ ∧ r₂.next j (textAt l j) = some r' := by
  rw [← List.singleton_append, along_append, along_singleton] at h
  obtain ⟨r₁, hfirst, h⟩ := Option.bind_eq_some_iff.1 h
  rw [along_append, Option.bind_eq_some_iff] at h
  obtain ⟨r₂, hinner, h⟩ := h
  rw [along_singleton] at h
  exact ⟨r₁, r₂, hfirst, hinner, h⟩

/-- No open delimiter is closed by the one above it. -/
def Alternates (r : Reading) : Prop := r.pending.IsChain fun above below => closing? below.2 ≠ some above.2

theorem alternates_nil (partners : List (Nat × Nat)) : Alternates ⟨[], partners⟩ := List.IsChain.nil

/-- Two entries of stacks have the same text, and the same place unless that is a bar. -/
def Matches (e e' : Nat × Text) : Prop := e'.2 = e.2 ∧ (closing? e.2 ≠ some e.2 → e'.1 = e.1)

theorem above_tail {e : Nat × Text} {pending : List (Nat × Text)} (h : r.Alternates) (hpending : r.pending = e :: pending) :
    Above e.2 pending := by
  rintro k opening rest rfl
  rw [Alternates, hpending] at h
  exact (List.isChain_cons_cons.1 h).1

/-- What lies under a stack of the same texts is closed by the same texts. -/
theorem above_of_matches {pending pending' : List (Nat × Text)} (h : Above t pending)
    (hmatches : List.Forall₂ Matches pending pending') : Above t pending' := by
  rintro k opening rest rfl
  cases hmatches with
  | @cons e _ pending _ he _ =>
    obtain ⟨htext, -⟩ := he
    dsimp only at htext
    rw [htext]
    exact h e.1 e.2 pending rfl

theorem next_alternates (h : r.next i t = some r') (halternates : r.Alternates) : r'.Alternates := by
  rcases next_cases h with ⟨k, opening, rest, hpending, -, rfl⟩ | ⟨habove, -, rfl⟩ | ⟨-, -, rfl⟩
  · rw [Alternates, hpending] at halternates
    exact halternates.of_cons
  · rw [Alternates]
    cases hpending : r.pending with
    | nil => exact .singleton _
    | cons e rest =>
      rw [Alternates, hpending] at halternates
      exact List.isChain_cons_cons.2 ⟨habove e.1 e.2 rest hpending, halternates⟩
  · exact halternates

theorem next_partners (h : r.next i t = some r') : r.partners ⊆ r'.partners := by
  rcases next_cases h with ⟨k, opening, rest, -, -, rfl⟩ | ⟨-, -, rfl⟩ | ⟨-, -, rfl⟩
  · exact List.subset_cons_self _ _
  · exact List.Subset.refl _
  · exact List.Subset.refl _

/-- A delimiter that opens and does not close comes on top. -/
theorem next_eq_of_above (h : r.next i t = some r') (habove : Above t r.pending) (hopens : (closing? t).isSome = true) :
    r' = ⟨(i, t) :: r.pending, r.partners⟩ := by
  rcases next_cases h with ⟨k, opening, rest, hpending, hcloses, rfl⟩ | ⟨-, -, rfl⟩ | ⟨-, hnone, rfl⟩
  · exact absurd hcloses (habove k opening rest hpending)
  · rfl
  · rw [hnone] at hopens
    cases hopens

/-- A delimiter that closes what is on top takes it off. -/
theorem next_eq_of_closes {opening : Text} {k : Nat} {pending : List (Nat × Text)} (h : r.next i t = some r')
    (hpending : r.pending = (k, opening) :: pending) (hcloses : closing? opening = some t) :
    r' = ⟨pending, (k, i) :: r.partners⟩ := by
  rcases next_cases h with ⟨k', opening', rest, hpending', -, rfl⟩ | ⟨habove, -, rfl⟩ | ⟨habove, -, rfl⟩
  · rw [hpending] at hpending'
    cases hpending'
    rfl
  · exact absurd hcloses (habove k opening pending hpending)
  · exact absurd hcloses (habove k opening pending hpending)

/-- An object without text changes nothing. -/
theorem next_eq_of_empty (h : r.next i [] = some r') : r' = r := by
  rcases next_cases h with ⟨k, opening, rest, -, hcloses, -⟩ | ⟨-, hopens, -⟩ | ⟨-, -, rfl⟩
  · exact absurd (length_of_closing? hcloses).2 (by decide)
  · cases hopens
  · rfl

end Reading

/-! ### Nests -/

/-- What promotion makes of neighbours: an object that stays by itself, or a group between two delimiters. -/
inductive Group where
  | one (i : Nat)
  | pair (i : Nat) (inner : Group) (j : Nat)

namespace Group

/-- The places of the objects of a group, in order. -/
def places : Group → List Nat
  | one i => [i]
  | pair i inner j => i :: (inner.places ++ [j])

/-- The places of the delimiters that are taken for partners. -/
def pairs : Group → List (Nat × Nat)
  | one _ => []
  | pair i inner j => (i, j) :: inner.pairs

/-- The delimiters of the group are pairs, and the object inside them all has no text. -/
def IsNest (l : List Node) : Group → Prop
  | one i => textAt l i = []
  | pair i inner j => closing? (textAt l i) = some (textAt l j) ∧ inner.IsNest l

/-- The group is a nest, or any one object. -/
def IsProper (l : List Node) (group : Group) : Prop := group.IsNest l ∨ ∃ i, group = .one i

end Group

namespace Reading

variable {r r' : Reading} {group : Group}

/-- A nest leaves the stack but for the places of bars, and its unlike delimiters are partners. -/
theorem along_nest (hnest : group.IsNest l) (h : r.along l group.places = some r') (halternates : r.Alternates) :
    r'.Alternates ∧ r.partners ⊆ r'.partners ∧ List.Forall₂ Matches r.pending r'.pending ∧
      ∀ p ∈ group.pairs, textAt l p.1 ≠ textAt l p.2 → p ∈ r'.partners := by
  induction group generalizing r r' with
  | one i =>
    rw [Group.places, along_singleton, show textAt l i = [] from hnest] at h
    obtain rfl := next_eq_of_empty h
    exact ⟨halternates, List.Subset.refl _, List.forall₂_same.2 fun _ _ => ⟨rfl, fun _ => rfl⟩, by simp [Group.pairs]⟩
  | pair i inner j ih =>
    obtain ⟨hpair, hinner⟩ := hnest
    obtain ⟨r₁, r₂, hfirst, hmiddle, hlast⟩ := exists_of_along_pair h
    have hopens : (closing? (textAt l i)).isSome = true := by rw [hpair]; rfl
    obtain ⟨halt₂, hsub₂, hmatch₂, hpairs₂⟩ := ih hinner hmiddle (next_alternates hfirst halternates)
    have hsub : r.partners ⊆ r'.partners :=
      List.Subset.trans (next_partners hfirst) (List.Subset.trans hsub₂ (next_partners hlast))
    have hpairs : ∀ p ∈ inner.pairs, textAt l p.1 ≠ textAt l p.2 → p ∈ r'.partners := fun p hp hunlike =>
      next_partners hlast (hpairs₂ p hp hunlike)
    refine ⟨next_alternates hlast halt₂, hsub, ?_⟩
    rcases next_cases hfirst with ⟨k, opening, rest, hpending, hcloses, rfl⟩ | ⟨habove, -, rfl⟩ | ⟨-, hnone, -⟩
    · -- the first is a bar that closes one, and since none lies under that one, the last is open again
      have hlike : textAt l i = textAt l j := by
        by_contra hunlike
        exact closing?_ne_of_unlike hpair hunlike opening hcloses
      have hbar : closing? (textAt l i) = some (textAt l i) := by rw [hpair, hlike]
      have hopening : opening = textAt l i := eq_of_closing?_self hbar hcloses
      have habove : Above (textAt l j) r₂.pending := by
        rw [← hlike, ← hopening]
        exact above_of_matches (above_tail halternates hpending) hmatch₂
      obtain rfl := next_eq_of_above hlast habove (by rw [← hlike]; exact hopens)
      refine ⟨?_, fun p hp hunlike => ?_⟩
      · rw [hpending]
        refine .cons ⟨hlike.symm.trans hopening.symm, fun hne => ?_⟩ hmatch₂
        exact absurd (by rw [hopening, hbar]) hne
      · rcases List.mem_cons.1 hp with rfl | hp
        · exact absurd hlike hunlike
        · exact hpairs p hp hunlike
    · -- the first opens, and what stands between leaves it on top
      obtain ⟨⟨k, opening⟩, rest₂, ⟨htext, hplace⟩, hrest, hpending₂⟩ := List.forall₂_cons_left_iff.1 hmatch₂
      obtain rfl : opening = textAt l i := htext
      obtain rfl := next_eq_of_closes hlast hpending₂ hpair
      refine ⟨hrest, fun p hp hunlike => ?_⟩
      rcases List.mem_cons.1 hp with rfl | hp
      · have hk : k = i := hplace fun hbar => hunlike (Option.some.inj (hbar.symm.trans hpair))
        rw [hk]
        exact List.mem_cons_self
      · exact hpairs p hp hunlike
    · rw [hnone] at hopens
      cases hopens

/-- A nest of which no first delimiter closes what is open before leaves the stack, and all its delimiters are partners. -/
theorem along_nest_of_opens (hnest : group.IsNest l) (h : r.along l group.places = some r')
    (hopens : ∀ p ∈ group.pairs, ∀ q ∈ r'.partners, q.2 ≠ p.1) :
    r'.pending = r.pending ∧ r.partners ⊆ r'.partners ∧ ∀ p ∈ group.pairs, p ∈ r'.partners := by
  induction group generalizing r r' with
  | one i =>
    rw [Group.places, along_singleton, show textAt l i = [] from hnest] at h
    obtain rfl := next_eq_of_empty h
    exact ⟨rfl, List.Subset.refl _, by simp [Group.pairs]⟩
  | pair i inner j ih =>
    obtain ⟨hpair, hinner⟩ := hnest
    obtain ⟨r₁, r₂, hfirst, hmiddle, hlast⟩ := exists_of_along_pair h
    have hin : ∀ p ∈ inner.pairs, ∀ q ∈ r₂.partners, q.2 ≠ p.1 := fun p hp q hq =>
      hopens p (List.mem_cons_of_mem _ hp) q (next_partners hlast hq)
    obtain ⟨hpending₂, hsub₂, hpairs₂⟩ := ih hinner hmiddle hin
    rcases next_cases hfirst with ⟨k, opening, rest, -, -, rfl⟩ | ⟨-, -, rfl⟩ | ⟨-, hnone, -⟩
    · have hcloses : (k, i) ∈ r'.partners := next_partners hlast (hsub₂ List.mem_cons_self)
      exact absurd rfl (hopens (i, j) List.mem_cons_self (k, i) hcloses)
    · obtain rfl := next_eq_of_closes hlast hpending₂ hpair
      refine ⟨rfl, fun p hp => List.mem_cons_of_mem _ (hsub₂ hp), fun p hp => ?_⟩
      rcases List.mem_cons.1 hp with rfl | hp
      · exact List.mem_cons_self
      · exact List.mem_cons_of_mem _ (hpairs₂ p hp)
    · rw [hnone] at hpair
      cases hpair

/-! ### All groups -/

variable {groups : List Group}

theorem along_partners {places : List Nat} (h : r.along l places = some r') : r.partners ⊆ r'.partners := by
  induction places generalizing r with
  | nil =>
    obtain rfl : r = r' := Option.some.inj h
    exact List.Subset.refl _
  | cons i places ih =>
    rw [← List.singleton_append, along_append, along_singleton] at h
    obtain ⟨r₁, hfirst, h⟩ := Option.bind_eq_some_iff.1 h
    exact List.Subset.trans (next_partners hfirst) (ih h)

theorem exists_of_along_groups {group : Group} (h : r.along l ((group :: groups).flatMap Group.places) = some r') :
    ∃ r₁, r.along l group.places = some r₁ ∧ r₁.along l (groups.flatMap Group.places) = some r' := by
  rw [List.flatMap_cons, along_append] at h
  exact Option.bind_eq_some_iff.1 h

/-- Unlike delimiters of a group are partners. -/
theorem mem_partners_of_unlike (hgroups : ∀ group ∈ groups, group.IsProper l) (halternates : r.Alternates)
    (h : r.along l (groups.flatMap Group.places) = some r') :
    ∀ p ∈ groups.flatMap Group.pairs, textAt l p.1 ≠ textAt l p.2 → p ∈ r'.partners := by
  induction groups generalizing r with
  | nil => simp
  | cons group groups ih =>
    obtain ⟨r₁, hgroup, hrest⟩ := exists_of_along_groups h
    have hstep : r₁.Alternates ∧ ∀ p ∈ group.pairs, textAt l p.1 ≠ textAt l p.2 → p ∈ r₁.partners := by
      rcases hgroups group List.mem_cons_self with hnest | ⟨i, rfl⟩
      · obtain ⟨halternates₁, -, -, hpairs⟩ := along_nest hnest hgroup halternates
        exact ⟨halternates₁, hpairs⟩
      · rw [Group.places, along_singleton] at hgroup
        exact ⟨next_alternates hgroup halternates, by simp [Group.pairs]⟩
    intro p hp hunlike
    rcases List.mem_append.1 (List.flatMap_cons ▸ hp) with hp | hp
    · exact along_partners hrest (hstep.2 p hp hunlike)
    · exact ih (fun g hg => hgroups g (List.mem_cons_of_mem _ hg)) hstep.1 hrest p hp hunlike

/-- Where no first delimiter of a pair closes one, all pairs are partners. -/
theorem mem_partners_of_opens (hgroups : ∀ group ∈ groups, group.IsProper l)
    (h : r.along l (groups.flatMap Group.places) = some r')
    (hopens : ∀ p ∈ groups.flatMap Group.pairs, ∀ q ∈ r'.partners, q.2 ≠ p.1) :
    ∀ p ∈ groups.flatMap Group.pairs, p ∈ r'.partners := by
  induction groups generalizing r with
  | nil => simp
  | cons group groups ih =>
    obtain ⟨r₁, hgroup, hrest⟩ := exists_of_along_groups h
    rw [List.flatMap_cons] at hopens ⊢
    intro p hp
    rcases List.mem_append.1 hp with hp | hp
    · rcases hgroups group List.mem_cons_self with hnest | ⟨i, rfl⟩
      · have hin : ∀ p ∈ group.pairs, ∀ q ∈ r₁.partners, q.2 ≠ p.1 := fun p hp q hq =>
          hopens p (List.mem_append_left _ hp) q (along_partners hrest hq)
        exact along_partners hrest ((along_nest_of_opens hnest hgroup hin).2.2 p hp)
      · simp [Group.pairs] at hp
    · exact ih (fun g hg => hgroups g (List.mem_cons_of_mem _ hg)) hrest
        (fun p hp => hopens p (List.mem_append_right _ hp)) p hp

/-! ### Places -/

/-- What is read so far stands before `n`, and no delimiter is both the second of a pair and anything else. -/
structure Apart (n : Nat) (r : Reading) : Prop where
  pending : ∀ e ∈ r.pending, e.1 < n
  first : ∀ p ∈ r.partners, p.1 < n
  second : ∀ q ∈ r.partners, q.2 < n
  partners : ∀ q ∈ r.partners, ∀ p ∈ r.partners, q.2 ≠ p.1
  entries : ∀ q ∈ r.partners, ∀ e ∈ r.pending, q.2 ≠ e.1

theorem Apart.next (h : Apart n r) (hnext : r.next n t = some r') : Apart (n + 1) r' := by
  rcases next_cases hnext with ⟨k, opening, rest, hpending, -, rfl⟩ | ⟨-, -, rfl⟩ | ⟨-, -, rfl⟩
  · have hk : k < n := h.pending _ (by rw [hpending]; exact List.mem_cons_self)
    have hrest : ∀ e ∈ rest, e ∈ r.pending := fun e he => by rw [hpending]; exact List.mem_cons_of_mem _ he
    refine ⟨fun e he => ?_, ?_, ?_, ?_, ?_⟩
    · exact Nat.lt_succ_of_lt (h.pending e (hrest e he))
    · exact List.forall_mem_cons.2 ⟨Nat.lt_succ_of_lt hk, fun p hp => Nat.lt_succ_of_lt (h.first p hp)⟩
    · exact List.forall_mem_cons.2 ⟨Nat.lt_succ_self n, fun q hq => Nat.lt_succ_of_lt (h.second q hq)⟩
    · refine List.forall_mem_cons.2 ⟨List.forall_mem_cons.2 ⟨hk.ne', fun p hp => (h.first p hp).ne'⟩, fun q hq => ?_⟩
      refine List.forall_mem_cons.2 ⟨h.entries q hq (k, opening) ?_, h.partners q hq⟩
      rw [hpending]
      exact List.mem_cons_self
    · refine List.forall_mem_cons.2 ⟨fun e he => (h.pending e (hrest e he)).ne', fun q hq e he => ?_⟩
      exact h.entries q hq e (hrest e he)
  · refine ⟨?_, fun p hp => Nat.lt_succ_of_lt (h.first p hp), fun q hq => Nat.lt_succ_of_lt (h.second q hq), h.partners, ?_⟩
    · exact List.forall_mem_cons.2 ⟨Nat.lt_succ_self n, fun e he => Nat.lt_succ_of_lt (h.pending e he)⟩
    · exact fun q hq => List.forall_mem_cons.2 ⟨(h.second q hq).ne, h.entries q hq⟩
  · exact ⟨fun e he => Nat.lt_succ_of_lt (h.pending e he), fun p hp => Nat.lt_succ_of_lt (h.first p hp),
      fun q hq => Nat.lt_succ_of_lt (h.second q hq), h.partners, h.entries⟩

theorem apart_of_along_range (h : along l ⟨[], []⟩ (List.range n) = some r) : Apart n r := by
  induction n generalizing r with
  | zero =>
    obtain rfl : (⟨[], []⟩ : Reading) = r := Option.some.inj h
    constructor <;> simp
  | succ n ih =>
    rw [List.range_succ, along_append] at h
    obtain ⟨r₁, hbefore, hlast⟩ := Option.bind_eq_some_iff.1 h
    rw [along_singleton] at hlast
    exact (ih hbefore).next hlast

end Reading

/-- What groups make of a container: their unlike delimiters are partners, and all are if no first one closes another. -/
theorem pairs_partners {groups : List Group} (hgroups : ∀ group ∈ groups, group.IsProper l)
    (hplaces : groups.flatMap Group.places = List.range l.length) {partners : List (Nat × Nat)}
    (hpartners : partners? l = some partners) :
    (∀ p ∈ groups.flatMap Group.pairs, textAt l p.1 ≠ textAt l p.2 → p ∈ partners) ∧
      ((∀ p ∈ groups.flatMap Group.pairs, p ∈ partners) ↔
        ∀ p ∈ groups.flatMap Group.pairs, ∀ q ∈ partners, q.2 ≠ p.1) := by
  obtain ⟨r, hr, rfl⟩ := Option.map_eq_some_iff.1 hpartners
  have halong : Reading.along l ⟨[], []⟩ (List.range l.length) = some r := (Option.filter_eq_some_iff.1 hr).1
  have hapart := Reading.apart_of_along_range halong
  rw [← hplaces] at halong
  refine ⟨Reading.mem_partners_of_unlike hgroups (Reading.alternates_nil []) halong, fun h p hp q hq => ?_, ?_⟩
  · exact hapart.partners q hq p (h p hp)
  · exact Reading.mem_partners_of_opens hgroups halong

end EquationExport.Omml
