import EquationExport.Proofs.Text.Occurrence
import EquationExport.Splice

/-!
# The run around a token

What the search for a run finds, told by positions: the last place before the token at which a run opens, and
the first end of a run behind it. From this it follows what splicing one equation does to a document, and
that it is never refused.
-/

namespace EquationExport.Splice

open EquationExport.Text

/-! ### Where runs open -/

/-- A run opens at position `i`: the tag `<w:r>`, with attributes or without. -/
def OpensRunAt (document : Text) (i : Nat) : Prop :=
  StandsAt document i "<w:r " ∨ StandsAt document i "<w:r>"

/-- A place at which `<w:r` stands is the opening of a run, going by what follows. -/
def isOpening (start : Nat × Text) : Bool := start.2.head?.any fun c : CodePoint => c = ' ' ∨ c = '>'

theorem mem_runStarts {position i : Nat} {s rest : Text} :
    (i, rest) ∈ runStarts position s ↔ ∃ k, i = position + k ∧ s.drop k = ("<w:r" : Text) ++ rest := by
  induction s generalizing position with
  | nil => simp [runStarts, show (("<w:r" : Text) ≠ []) from by decide]
  | cons c s ih =>
    have hsplit : (∃ k, i = position + k ∧ (c :: s).drop k = ("<w:r" : Text) ++ rest) ↔
        (i = position ∧ c :: s = ("<w:r" : Text) ++ rest) ∨
          ∃ k, i = position + 1 + k ∧ s.drop k = ("<w:r" : Text) ++ rest := by
      constructor
      · rintro ⟨k, rfl, hk⟩
        cases k with
        | zero => exact .inl ⟨rfl, hk⟩
        | succ k => exact .inr ⟨k, by omega, hk⟩
      · rintro (⟨rfl, hk⟩ | ⟨k, rfl, hk⟩)
        · exact ⟨0, rfl, hk⟩
        · exact ⟨k + 1, by omega, hk⟩
    rw [hsplit, runStarts]
    cases hd : dropPrefix? (c :: s) "<w:r" with
    | none =>
      rw [ih, or_iff_right]
      rintro ⟨-, hs⟩
      exact dropPrefix?_eq_none_iff.1 hd ⟨rest, hs.symm⟩
    | some r =>
      rw [List.mem_cons, ih, dropPrefix?_eq_some_iff.1 hd]
      simp only [Prod.mk.injEq, List.append_cancel_left_eq]
      exact or_congr_left (and_congr_right fun _ => eq_comm)

/-- The places are found from the left to the right. -/
theorem runStarts_pairwise (position : Nat) (s : Text) :
    (runStarts position s).Pairwise fun a b => a.1 < b.1 := by
  induction s generalizing position with
  | nil => exact List.Pairwise.nil
  | cons c s ih =>
    rw [runStarts]
    split
    · refine List.pairwise_cons.2 ⟨?_, ih _⟩
      rintro ⟨i, r⟩ hi
      obtain ⟨k, rfl, -⟩ := mem_runStarts.1 hi
      show position < position + 1 + k
      omega
    · exact ih _

theorem opensRunAt_iff {document : Text} {i : Nat} :
    OpensRunAt document i ↔ ∃ rest, (i, rest) ∈ runStarts 0 document ∧ isOpening (i, rest) := by
  constructor
  · rintro (⟨t, ht⟩ | ⟨t, ht⟩)
    · exact ⟨(' ' : CodePoint) :: t, mem_runStarts.2 ⟨i, by omega, ht.symm⟩, by simp [isOpening]⟩
    · exact ⟨('>' : CodePoint) :: t, mem_runStarts.2 ⟨i, by omega, ht.symm⟩, by simp [isOpening]⟩
  · rintro ⟨rest, hmem, hopen⟩
    obtain ⟨k, hk, hdrop⟩ := mem_runStarts.1 hmem
    obtain rfl : i = k := by omega
    cases rest with
    | nil => simp [isOpening] at hopen
    | cons c t =>
      simp only [isOpening, List.head?_cons, Option.any_some, decide_eq_true_eq] at hopen
      rcases hopen with rfl | rfl
      · exact .inl ⟨t, hdrop.symm⟩
      · exact .inr ⟨t, hdrop.symm⟩

/-- The choice among places that do not end the text. -/
theorem firstRun?_eq {starts : List (Nat × Text)} (h : ∀ start ∈ starts, start.2 ≠ []) :
    firstRun? starts = .ok ((starts.find? isOpening).map (·.1)) := by
  induction starts with
  | nil => rfl
  | cons start starts ih =>
    obtain ⟨i, rest⟩ := start
    cases rest with
    | nil => exact absurd rfl (h _ (List.mem_cons_self ..))
    | cons c t =>
      rw [firstRun?, ih fun start hs => h start (List.mem_cons_of_mem _ hs), List.find?_cons]
      have hopening : isOpening (i, c :: t) = decide (c = ' ' ∨ c = '>') := rfl
      by_cases hc : c = ' ' ∨ c = '>'
      · rw [if_pos hc, hopening, decide_eq_true hc]
        rfl
      · rw [if_neg hc, hopening, decide_eq_false hc]

/-! ### The run around a position -/

/--
The run around a position: it opens before the position, no run opens between, and it is closed by the first
end of a run behind its opening, which does not come before the position.
-/
structure RunAround (document : Text) (index start stop : Nat) : Prop where
  opens : OpensRunAt document start
  before : start + 4 ≤ index
  last : ∀ i, OpensRunAt document i → i + 4 ≤ index → i ≤ start
  closes : ∃ n, FirstAt (document.drop start) n "</w:r>" ∧ index ≤ start + n ∧ stop = start + n + 6

/-- There is one run around a position at most. -/
theorem RunAround.unique {document : Text} {index start stop start' stop' : Nat}
    (h : RunAround document index start stop) (h' : RunAround document index start' stop') :
    start = start' ∧ stop = stop' := by
  obtain rfl := Nat.le_antisymm (h'.last start h.opens h.before) (h.last start' h'.opens h'.before)
  obtain ⟨n, hn, -, rfl⟩ := h.closes
  obtain ⟨m, hm, -, rfl⟩ := h'.closes
  obtain rfl := hn.unique hm
  exact ⟨rfl, rfl⟩

/-- The places before a position at which `<w:r` stands, the last one first. -/
def startsBefore (document : Text) (index : Nat) : List (Nat × Text) :=
  ((runStarts 0 document).filter fun start => start.1 + 4 ≤ index).reverse

/-- The last opening of a run before a position. -/
theorem find?_startsBefore_eq_some_iff {document : Text} {index start : Nat} :
    ((startsBefore document index).find? isOpening).map (·.1) = some start ↔
      OpensRunAt document start ∧ start + 4 ≤ index ∧
        ∀ i, OpensRunAt document i → i + 4 ≤ index → i ≤ start := by
  have hmem : ∀ x, x ∈ startsBefore document index ↔ x ∈ runStarts 0 document ∧ x.1 + 4 ≤ index := by
    intro x
    simp [startsBefore]
  have hsorted : (startsBefore document index).Pairwise fun a b => b.1 < a.1 := by
    rw [startsBefore, List.pairwise_reverse]
    exact (runStarts_pairwise 0 document).filter _
  have key : ∀ start, ((startsBefore document index).find? isOpening).map (·.1) = some start →
      OpensRunAt document start ∧ start + 4 ≤ index ∧
        ∀ i, OpensRunAt document i → i + 4 ≤ index → i ≤ start := by
    intro start h
    obtain ⟨⟨i, rest⟩, hfind, rfl⟩ := Option.map_eq_some_iff.1 h
    obtain ⟨hopen, before, after, hlist, hbefore⟩ := List.find?_eq_some_iff_append.1 hfind
    have hi := (hmem (i, rest)).1 (hlist ▸ List.mem_append_right _ (List.mem_cons_self ..))
    refine ⟨opensRunAt_iff.2 ⟨rest, hi.1, hopen⟩, hi.2, fun j hj hlimit => ?_⟩
    obtain ⟨rest', hj', hopen'⟩ := opensRunAt_iff.1 hj
    have hin := (hmem (j, rest')).2 ⟨hj', hlimit⟩
    rw [hlist] at hin hsorted
    rcases List.mem_append.1 hin with hin | hin
    · exact absurd hopen' (by simpa using hbefore _ hin)
    · rcases List.mem_cons.1 hin with heq | hin
      · exact (congrArg Prod.fst heq).le
      · exact ((List.pairwise_cons.1 (List.pairwise_append.1 hsorted).2.1).1 _ hin).le
  refine ⟨key start, fun ⟨hopen, hlimit, hlast⟩ => ?_⟩
  obtain ⟨rest, hstart, hopening⟩ := opensRunAt_iff.1 hopen
  cases hfind : ((startsBefore document index).find? isOpening).map (·.1) with
  | none =>
    rw [Option.map_eq_none_iff, List.find?_eq_none] at hfind
    exact absurd hopening (hfind _ ((hmem (start, rest)).2 ⟨hstart, hlimit⟩))
  | some i =>
    obtain ⟨hopen', hlimit', hlast'⟩ := key i hfind
    rw [Nat.le_antisymm (hlast i hopen' hlimit') (hlast' start hopen hlimit)]

/-- The search for the run around a position that is not the end: its last step, behind the choice of the opening. -/
theorem enclosingRun?_eq {document : Text} {index : Nat} (h : index = 0 ∨ index < document.length) :
    enclosingRun? document index =
      .ok ((((startsBefore document index).find? isOpening).map (·.1)).bind fun start =>
        (Text.find? (document.drop start) "</w:r>").bind fun n =>
          if start + n < index then none else some (start, start + n + 6)) := by
  have hstarts : ∀ start ∈ startsBefore document index, start.2 ≠ [] := by
    rintro ⟨i, rest⟩ hi rfl
    rw [startsBefore, List.mem_reverse, List.mem_filter] at hi
    obtain ⟨k, hk, hdrop⟩ := mem_runStarts.1 hi.1
    have hlen := congrArg List.length hdrop
    have hle := of_decide_eq_true hi.2
    rw [List.length_drop, List.append_nil, show ("<w:r" : Text).length = 4 from by decide] at hlen
    simp only at hle
    omega
  have hlimit : fromStart document.length (index : Int) = index := by
    rw [fromStart, if_neg (by omega), Int.toNat_natCast]
  have hfirst : firstRun? (List.filter (fun start => decide (start.1 + 4 ≤ fromStart document.length ↑index))
      (runStarts 0 document)).reverse = .ok (((startsBefore document index).find? isOpening).map (·.1)) := by
    rw [hlimit]
    exact firstRun?_eq hstarts
  unfold enclosingRun?
  simp only [hfirst, bind, Except.bind, pure, Except.pure]
  cases ((startsBefore document index).find? isOpening).map (·.1) with
  | none => rfl
  | some start =>
    simp only [Option.bind_some]
    cases Text.find? (document.drop start) "</w:r>" with
    | none => rfl
    | some n =>
      simp only [Option.bind_some]
      split <;> split <;> first | rfl | omega

/-- The search for the run around a position that is not the end is not refused: it finds the run, or there is none. -/
theorem enclosingRun?_cases {document : Text} {index : Nat} (h : index = 0 ∨ index < document.length) :
    (enclosingRun? document index = .ok none ∧ ∀ start stop, ¬ RunAround document index start stop) ∨
      ∃ start stop, enclosingRun? document index = .ok (some (start, stop)) ∧
        RunAround document index start stop := by
  rw [enclosingRun?_eq h]
  cases hstart : ((startsBefore document index).find? isOpening).map (·.1) with
  | none =>
    refine .inl ⟨rfl, fun start stop hrun => ?_⟩
    have hfound := find?_startsBefore_eq_some_iff.2 ⟨hrun.opens, hrun.before, hrun.last⟩
    rw [hstart] at hfound
    cases hfound
  | some start =>
    obtain ⟨hopen, hlimit, hlast⟩ := find?_startsBefore_eq_some_iff.1 hstart
    have hunique : ∀ start' stop, RunAround document index start' stop → start' = start := fun start' stop hrun =>
      Nat.le_antisymm (hlast _ hrun.opens hrun.before) (hrun.last _ hopen hlimit)
    cases hstop : Text.find? (document.drop start) "</w:r>" with
    | none =>
      refine .inl ⟨by simp [hstop], fun start' stop hrun => ?_⟩
      obtain rfl := hunique start' stop hrun
      obtain ⟨n, hn, -⟩ := hrun.closes
      exact find?_eq_none_iff.1 hstop (infix_iff_exists_standsAt.2 ⟨n, hn.1⟩)
    | some n =>
      have hn : n ≤ (document.drop start).length := by
        obtain ⟨⟨a, b⟩, hab, rfl⟩ := Option.map_eq_some_iff.1 hstop
        rw [(breakOn?_eq_some_iff.1 hab).1]
        simp
      have hfirst := (find?_eq_some_iff hn).1 hstop
      by_cases hbefore : start + n < index
      · refine .inl ⟨by simp [hstop, hbefore], fun start' stop hrun => ?_⟩
        obtain rfl := hunique start' stop hrun
        obtain ⟨m, hm, hle, -⟩ := hrun.closes
        rcases Nat.lt_trichotomy m n with hlt | rfl | hgt
        · exact hfirst.2 m hlt hm.1
        · omega
        · exact hm.2 n hgt hfirst.1
      · refine .inr ⟨start, start + n + 6, by simp [hstop, hbefore], hopen, hlimit, hlast, n, hfirst, ?_, rfl⟩
        omega

/-! ### Splicing one equation -/

/-- The markup that is put in the place of a token's run. -/
def markup (item : Replacement) : Text := wrapOmml (sanitizeOmml item.omml) item.display

/-- What is cut out of a document for a token: the run around its first occurrence. -/
def Cut (document token : Text) (start stop : Nat) : Prop :=
  ∃ index, FirstAt document index token ∧ RunAround document index start stop

theorem Cut.unique {document token : Text} {start stop start' stop' : Nat} (h : Cut document token start stop)
    (h' : Cut document token start' stop') : start = start' ∧ stop = stop' := by
  obtain ⟨i, hi, hrun⟩ := h
  obtain ⟨j, hj, hrun'⟩ := h'
  obtain rfl := hi.unique hj
  exact hrun.unique hrun'

/-- A text stands first at the front, or somewhere before the end: the empty text stands at the front. -/
theorem eq_zero_or_lt_of_firstAt {document token : Text} {index : Nat} (h : FirstAt document index token) :
    index = 0 ∨ index < document.length := by
  by_cases hempty : token = []
  · subst hempty
    exact .inl (h.unique ⟨List.nil_prefix, fun _ hj => absurd hj (Nat.not_lt_zero _)⟩)
  · have hlength := h.1.add_length_le hempty
    have hpos := List.length_pos_of_ne_nil hempty
    exact .inr (by omega)

/-- Splicing one equation is not refused. It cuts out a run and puts the markup there, or changes nothing. -/
theorem spliceOne_cases (document : Text) (item : Replacement) :
    (spliceOne document item = .ok document ∧ ∀ start stop, ¬ Cut document item.token start stop) ∨
      ∃ start stop, Cut document item.token start stop ∧
        spliceOne document item = .ok (document.take start ++ markup item ++ document.drop stop) := by
  unfold spliceOne
  by_cases hin : item.token <:+: document
  · obtain ⟨index, hle, hfirst⟩ := exists_firstAt hin
    rw [(find?_eq_some_iff hle).2 hfirst]
    rcases enclosingRun?_cases (eq_zero_or_lt_of_firstAt hfirst) with ⟨hnone, hno⟩ | ⟨start, stop, hsome, hrun⟩
    · refine .inl ⟨by simp [hnone, bind, Except.bind, pure, Except.pure], ?_⟩
      rintro start stop ⟨i, hi, hrun⟩
      obtain rfl := hi.unique hfirst
      exact hno start stop hrun
    · exact .inr ⟨start, stop, ⟨index, hfirst, hrun⟩, by simp [hsome, bind, Except.bind, pure, Except.pure, markup]⟩
  · rw [find?_eq_none_iff.2 hin]
    refine .inl ⟨rfl, ?_⟩
    rintro start stop ⟨i, hi, -⟩
    exact hin (infix_iff_exists_standsAt.2 ⟨i, hi.1⟩)

/-- Splicing is never refused, and what each equation keeps the whole keeps. -/
theorem exists_foldlM_spliceOne {kept : Text → Prop}
    (hstep : ∀ document item next, kept document → spliceOne document item = .ok next → kept next)
    (document : Text) (hdocument : kept document) (items : List Replacement) :
    ∃ text, items.foldlM spliceOne document = .ok text ∧ kept text := by
  induction items generalizing document with
  | nil => exact ⟨document, rfl, hdocument⟩
  | cons item items ih =>
    obtain ⟨next, hnext⟩ : ∃ next, spliceOne document item = .ok next :=
      (spliceOne_cases document item).elim (fun h => ⟨_, h.1⟩) fun ⟨_, _, _, h⟩ => ⟨_, h⟩
    obtain ⟨text, htext, hkept⟩ := ih next (hstep document item next hdocument hnext)
    exact ⟨text, by rw [List.foldlM_cons, hnext]; exact htext, hkept⟩

/-- Splicing equations is never refused. -/
theorem exists_spliceAll (document : Text) (items : List Replacement) : ∃ text, spliceAll document items = .ok text := by
  rw [spliceAll]
  split
  · exact ⟨_, rfl⟩
  · obtain ⟨text, htext, -⟩ :=
      exists_foldlM_spliceOne (fun _ _ _ _ _ => True.intro) (declareMathNamespace document) True.intro items
    exact ⟨text, htext⟩

end EquationExport.Splice
