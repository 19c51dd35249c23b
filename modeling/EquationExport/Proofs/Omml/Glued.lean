import EquationExport.Proofs.Omml.Bar
import Mathlib.Algebra.Ring.Nat

/-!
# Digits glued to bars

One run is split in each round, at its first bar with digits behind it, and there are sixty-four rounds. Runs
that stand in no other run are what the rounds work on: what is read in a run inside another is read in the
outer one too, which comes first. A round takes one glued bar away from them, so sixty-four glued bars at most
are taken apart.

The new runs of a round have copies of the properties of the split run, and the text of a run is all text in it.
Properties with text of their own can glue the digits of a new run again; then every round puts a run in the
place of the split one that must be split again, and no number of rounds is enough.
-/

namespace EquationExport.Omml

open Xml Xml.Node Repair

/-! ### Glued bars in a text -/

/-- A bar stands in the text with a digit right behind it. -/
def IsGlued (text : Text) : Prop :=
  ∃ front digit rest, text = front ++ (normBar ++ digit :: rest) ∧ isScriptDigit digit = true

/-- The text begins with a digit. -/
def beginsWithDigit (text : Text) : Bool := text.head?.any isScriptDigit

/-- How many bars stand in the text with a digit right behind them. -/
def gluedBars : Text → Nat
  | [] => 0
  | c :: rest => (if [c] = normBar ∧ beginsWithDigit rest = true then 1 else 0) + gluedBars rest

section Texts

variable {s t before digits after : Text} {c d : CodePoint}

theorem gluedBars_cons (c : CodePoint) (s : Text) :
    gluedBars (c :: s) = (if [c] = normBar ∧ beginsWithDigit s = true then 1 else 0) + gluedBars s := rfl

theorem beginsWithDigit_iff : beginsWithDigit s = true ↔ ∃ digit rest, s = digit :: rest ∧ isScriptDigit digit = true := by
  cases s <;> simp [beginsWithDigit]

theorem beginsWithDigit_append (h : s ≠ []) (t : Text) : beginsWithDigit (s ++ t) = beginsWithDigit s := by
  cases s with
  | nil => exact absurd rfl h
  | cons c s => rfl

theorem gluedBars_ne_zero_iff : gluedBars s ≠ 0 ↔ IsGlued s := by
  induction s with
  | nil =>
    refine ⟨fun h => absurd rfl h, ?_⟩
    rintro ⟨front, digit, rest, h, -⟩
    cases front <;> cases h
  | cons c s ih =>
    rw [gluedBars_cons]
    constructor
    · intro h
      split at h
      · next hbar =>
        obtain ⟨hc, hdigit⟩ := hbar
        obtain ⟨digit, rest, rfl, hdigit⟩ := beginsWithDigit_iff.1 hdigit
        exact ⟨[], digit, rest, by rw [← hc]; rfl, hdigit⟩
      · obtain ⟨front, digit, rest, rfl, hdigit⟩ := ih.1 (by omega)
        exact ⟨c :: front, digit, rest, rfl, hdigit⟩
    · rintro ⟨front, digit, rest, h, hdigit⟩
      cases front with
      | nil =>
        obtain ⟨rfl, rfl⟩ := List.cons.inj h
        rw [if_pos ⟨rfl, hdigit⟩]
        omega
      | cons d front =>
        obtain ⟨rfl, rfl⟩ := List.cons.inj h
        have := ih.2 ⟨front, digit, rest, rfl, hdigit⟩
        omega

theorem gluedBars_eq_zero_iff : gluedBars s = 0 ↔ ¬ IsGlued s := by
  rw [← gluedBars_ne_zero_iff, not_not]

instance (s : Text) : Decidable (IsGlued s) := decidable_of_iff _ gluedBars_ne_zero_iff

theorem IsGlued.of_infix (h : IsGlued s) (hst : s <:+: t) : IsGlued t := by
  obtain ⟨front, digit, rest, rfl, hdigit⟩ := h
  obtain ⟨a, b, rfl⟩ := hst
  exact ⟨a ++ front, digit, rest ++ b, by simp, hdigit⟩

theorem ne_normBar_of_isScriptDigit (h : isScriptDigit d = true) : [d] ≠ normBar := by
  intro hbar
  obtain rfl := (List.cons.inj hbar).1
  exact absurd h (by decide)

theorem gluedBars_append_of_digits (h : ∀ c ∈ digits, isScriptDigit c = true) (s : Text) :
    gluedBars (digits ++ s) = gluedBars s := by
  induction digits with
  | nil => rfl
  | cons d digits ih =>
    rw [List.cons_append, gluedBars_cons,
      if_neg fun hbar => ne_normBar_of_isScriptDigit (h d (by simp)) hbar.1, ih fun c hc => h c (by simp [hc])]
    omega

theorem gluedBars_normBar_append (s : Text) :
    gluedBars (normBar ++ s) = (if beginsWithDigit s = true then 1 else 0) + gluedBars s := by
  have hcons : normBar ++ s = CodePoint.ofChar '‖' :: s := rfl
  rw [hcons, gluedBars_cons]
  simp only [show [CodePoint.ofChar '‖'] = normBar by decide, true_and]

/-- What stands in front counts by itself, and its last bar by what follows. -/
theorem gluedBars_append (h : beginsWithDigit t = beginsWithDigit after) (s : Text) :
    gluedBars (s ++ t) + gluedBars after = gluedBars (s ++ after) + gluedBars t := by
  induction s with
  | nil => exact Nat.add_comm _ _
  | cons c s ih =>
    have hbegins : beginsWithDigit (s ++ t) = beginsWithDigit (s ++ after) := by
      cases s with
      | nil => exact h
      | cons d s => rfl
    rw [List.cons_append, List.cons_append, gluedBars_cons, gluedBars_cons, hbegins]
    omega

theorem gluedBars_le_append (s t : Text) : gluedBars s ≤ gluedBars (s ++ t) := by
  induction s with
  | nil => exact Nat.zero_le _
  | cons c s ih =>
    rw [List.cons_append, gluedBars_cons, gluedBars_cons]
    split
    · next hbar =>
      rw [if_pos]
      · omega
      · refine ⟨hbar.1, ?_⟩
        rw [beginsWithDigit_append, hbar.2]
        rintro rfl
        exact absurd hbar.2 (by decide)
    · omega

/-! ### The first bar with digits -/

theorem barWithDigits?_eq_none_iff :
    barWithDigits? (c :: s) = none ↔ ¬ ([c] = normBar ∧ beginsWithDigit s = true) := by
  have hempty : (List.takeWhile isScriptDigit s).isEmpty = true ↔ beginsWithDigit s = false := by
    cases s with
    | nil => simp [beginsWithDigit]
    | cons d s => cases hd : isScriptDigit d <;> simp [beginsWithDigit, hd]
  unfold barWithDigits?
  by_cases hc : [c] = normBar
  · have hdrop : Text.dropPrefix? (c :: s) normBar = some s := Text.dropPrefix?_eq_some_iff.2 (by rw [← hc]; rfl)
    rw [hdrop]
    dsimp only [Text.span]
    by_cases hs : (List.takeWhile isScriptDigit s).isEmpty = true
    · simp [hs, hempty.1 hs]
    · have hdigit : beginsWithDigit s = true := by
        rw [← Bool.not_eq_false]
        exact mt hempty.2 hs
      simp [hs, hc, hdigit]
  · have hdrop : Text.dropPrefix? (c :: s) normBar = none := by
      cases hsome : Text.dropPrefix? (c :: s) normBar with
      | none => rfl
      | some rest =>
        have hcons := Text.dropPrefix?_eq_some_iff.1 hsome
        exact absurd (by rw [(List.cons.inj hcons).1]; rfl) hc
    rw [hdrop]
    simp [hc]

theorem digits_of_breakAt? (h : Text.breakAt? barWithDigits? s = some (before, digits, after)) :
    digits ≠ [] ∧ ∀ c ∈ digits, isScriptDigit c = true := by
  obtain ⟨behind, -, hfound, -⟩ := Text.breakAt?_eq_some h
  refine ⟨?_, (barWithDigits?_eq_some hfound).2⟩
  rintro rfl
  unfold barWithDigits? at hfound
  split at hfound
  · next rest _ =>
    cases hempty : (Text.span rest isScriptDigit).1.isEmpty with
    | true => simp [hempty] at hfound
    | false =>
      simp only [hempty, Bool.false_eq_true, if_false, Option.some.injEq, Prod.mk.injEq] at hfound
      rw [hfound.1] at hempty
      cases hempty
  · cases hfound

/-- A text without a bar that has digits behind it has no glued bar. -/
theorem gluedBars_of_breakAt?_eq_none (h : Text.breakAt? barWithDigits? s = none) : gluedBars s = 0 := by
  fun_induction Text.breakAt? barWithDigits? s with
  | case1 => rfl
  | case2 => cases h
  | case3 => cases h
  | case4 c s hn hb ih => rw [gluedBars_cons, if_neg (barWithDigits?_eq_none_iff.1 hn), ih hb]

/-- Before the first bar with digits no bar is glued, and behind its digits are all others. -/
theorem gluedBars_of_breakAt?_eq_some (h : Text.breakAt? barWithDigits? s = some (before, digits, after)) :
    gluedBars before = 0 ∧ gluedBars s = 1 + gluedBars after := by
  fun_induction Text.breakAt? barWithDigits? s generalizing before with
  | case1 => cases h
  | case2 c s found hfound =>
    obtain ⟨rfl, rfl⟩ := Prod.mk.inj (Option.some.inj h)
    refine ⟨rfl, ?_⟩
    have hbar : [c] = normBar ∧ beginsWithDigit s = true := by
      by_contra hbar
      rw [barWithDigits?_eq_none_iff.2 hbar] at hfound
      cases hfound
    obtain ⟨heq, hdigits⟩ := barWithDigits?_eq_some hfound
    obtain rfl : s = digits ++ after := (List.cons.inj heq).2
    rw [gluedBars_cons, if_pos hbar, gluedBars_append_of_digits hdigits]
  | case3 c s hn front found hb ih =>
    obtain ⟨rfl, rfl⟩ := Prod.mk.inj (Option.some.inj h)
    obtain ⟨hfront, hs⟩ := ih hb
    have hbar := barWithDigits?_eq_none_iff.1 hn
    refine ⟨?_, by rw [gluedBars_cons, if_neg hbar, hs]; omega⟩
    obtain ⟨behind, rfl, -, -⟩ := Text.breakAt?_eq_some hb
    rw [gluedBars_cons, hfront, if_neg]
    rintro ⟨hc, hdigit⟩
    refine hbar ⟨hc, ?_⟩
    rw [beginsWithDigit_append, hdigit]
    rintro rfl
    exact absurd hdigit (by decide)
  | case4 => cases h

end Texts

/-! ### Properties with text of their own -/

/-- All text in the nodes, one text element after the other. -/
def joinedText (l : List Node) : Text := ((subtrees l).filter (·.isNamed "t")).flatMap fun t => t.text?.getD []

/-- A digit behind the text of the properties is glued to no bar, and there is none glued in that text. -/
def LeavesDigitsLoose (properties : Option Node) : Prop :=
  ∀ digit, isScriptDigit digit = true → ¬ IsGlued (joinedText properties.toList ++ [digit])

section Properties

variable {properties : Option Node} {digits : Text}

theorem gluedBars_of_digits (h : ∀ c ∈ digits, isScriptDigit c = true) : gluedBars digits = 0 := by
  rw [← List.append_nil digits, gluedBars_append_of_digits h]
  rfl

theorem LeavesDigitsLoose.gluedBars (h : LeavesDigitsLoose properties) (s : Text) :
    gluedBars (joinedText properties.toList ++ s) = gluedBars s := by
  have hzero : Omml.gluedBars (joinedText properties.toList ++ "0") = 0 :=
    gluedBars_eq_zero_iff.2 (h (CodePoint.ofChar '0') (by decide))
  cases hs : beginsWithDigit s with
  | true =>
    have hbegins : beginsWithDigit s = beginsWithDigit "0" := hs
    have hsum := gluedBars_append hbegins (joinedText properties.toList)
    have hdigit : Omml.gluedBars "0" = 0 := by decide
    omega
  | false =>
    have hbegins : beginsWithDigit s = beginsWithDigit [] := hs
    have hsum := gluedBars_append hbegins (joinedText properties.toList)
    have hle := gluedBars_le_append (joinedText properties.toList) "0"
    rw [List.append_nil] at hsum
    have hnil : Omml.gluedBars [] = 0 := rfl
    omega

theorem leavesDigitsLoose_of_textless (h : joinedText properties.toList = []) : LeavesDigitsLoose properties := by
  intro digit hdigit
  have hdigits : ∀ c ∈ [digit], isScriptDigit c = true := by simpa using hdigit
  rw [h, List.nil_append]
  exact gluedBars_eq_zero_iff.1 (gluedBars_of_digits hdigits)

theorem isGlued_append_digits (h : ¬ LeavesDigitsLoose properties) (hne : digits ≠ [])
    (hdigits : ∀ c ∈ digits, isScriptDigit c = true) : IsGlued (joinedText properties.toList ++ digits) := by
  simp only [LeavesDigitsLoose, not_forall, not_not] at h
  obtain ⟨digit, hdigit, hglued⟩ := h
  have hbegins : beginsWithDigit digits = beginsWithDigit [digit] := by
    obtain ⟨d, rest, rfl⟩ := List.exists_cons_of_ne_nil hne
    exact (hdigits d (by simp)).trans hdigit.symm
  have hsum := gluedBars_append hbegins (joinedText properties.toList)
  have hdigit : gluedBars [digit] = 0 := gluedBars_of_digits (by simpa using hdigit)
  rw [← gluedBars_ne_zero_iff] at hglued ⊢
  omega

end Properties

/-! ### Runs that stand in no other run -/

mutual

/-- The runs in a node, itself included, that stand in no other run of it. -/
def outerRuns : Node → List Node
  | .element tag text children tail =>
    if (Node.element tag text children tail).isRun then [.element tag text children tail] else outerRunsAmong children
  | _ => []

/-- The runs in several nodes that stand in no other run of them. -/
def outerRunsAmong : List Node → List Node
  | [] => []
  | node :: rest => outerRuns node ++ outerRunsAmong rest

end

/-- A bar in the text of the run is glued to a digit. -/
def HasGluedText (node : Node) : Prop := IsGlued (node.runText?.getD [])

instance (node : Node) : Decidable (HasGluedText node) := inferInstanceAs (Decidable (IsGlued _))

/-- How many bars are glued to digits, over the runs that stand in no other run. -/
def gluedLoad (l : List Node) : Nat := ((outerRunsAmong l).map fun run => gluedBars (run.runText?.getD [])).sum

section Runs

variable {node : Node} {l new : List Node} {properties : Option Node}

theorem outerRunsAmong_append (a b : List Node) : outerRunsAmong (a ++ b) = outerRunsAmong a ++ outerRunsAmong b := by
  induction a with
  | nil => rfl
  | cons node a ih => rw [List.cons_append, outerRunsAmong, outerRunsAmong, ih, List.append_assoc]

theorem outerRuns_of_isRun (h : node.isRun = true) : outerRuns node = [node] := by
  cases node with
  | element => rw [outerRuns, if_pos h]
  | comment => cases h
  | instruction => cases h

theorem outerRuns_element_of_not_isRun {tag : Tag} {text : Option Text} {children : List Node} {tail : Text}
    (h : ¬ (element tag text children tail).isRun = true) :
    outerRuns (element tag text children tail) = outerRunsAmong children := by
  rw [outerRuns, if_neg h]

theorem joinedText_append (a b : List Node) : joinedText (a ++ b) = joinedText a ++ joinedText b := by
  rw [joinedText, subtrees_append, List.filter_append, List.flatMap_append, joinedText, joinedText]

theorem runText?_of_isRun (h : node.isRun = true) : node.runText? = some (joinedText [node]) := by
  rw [runText?, if_pos h, joinedText, subtrees_cons, subtrees_nil, List.append_nil]

/-- What is read in a node is read in what holds it. -/
theorem isInfix_joinedText (h : node ∈ subtrees l) : joinedText [node] <:+: joinedText l := by
  obtain ⟨front, rest, hl⟩ := isInfix_subtree h
  rw [joinedText, joinedText, subtrees_cons, subtrees_nil, List.append_nil, ← hl]
  simp only [List.filter_append, List.flatMap_append]
  exact ⟨_, _, rfl⟩

theorem isRun_of_hasGluedText (h : HasGluedText node) : node.isRun = true := by
  rw [← Bool.not_eq_false]
  intro hrun
  obtain ⟨front, digit, rest, htext, -⟩ := h
  rw [runText?, hrun] at htext
  cases front <;> cases htext

theorem splitNormRun?_eq_none_iff : splitNormRun? node = none ↔ ¬ HasGluedText node := by
  rw [splitNormRun?]
  split
  · next before digits after hbreak =>
    have hsum := (gluedBars_of_breakAt?_eq_some hbreak).2
    have hglued : HasGluedText node := gluedBars_ne_zero_iff.1 (by omega)
    exact iff_of_false (fun hnone => by cases hnone) (not_not_intro hglued)
  · next hnone => exact iff_of_true rfl (gluedBars_eq_zero_iff.1 (gluedBars_of_breakAt?_eq_none hnone))

theorem hasGluedText_of_splitNormRun? (h : splitNormRun? node = some new) : HasGluedText node := by
  by_contra hnone
  rw [splitNormRun?_eq_none_iff.2 hnone] at h
  cases h

/-- A run that stands in no other run stands in the forest. -/
theorem mem_of_mem_outerRunsAmong (h : node ∈ outerRunsAmong l) : node ∈ subtrees l ∧ node.isRun = true := by
  induction l using forest_induction with
  | nil => cases h
  | element tag text children tail rest ihc ihr =>
    rw [outerRunsAmong, outerRuns] at h
    rw [subtrees_cons, subtree, List.mem_append, List.mem_cons]
    rcases List.mem_append.1 h with h | h
    · split at h
      · next hrun =>
        obtain rfl := List.mem_singleton.1 h
        exact ⟨.inl (.inl rfl), hrun⟩
      · exact ⟨.inl (.inr (ihc h).1), (ihc h).2⟩
    · exact ⟨.inr (ihr h).1, (ihr h).2⟩
  | comment content tail rest ih | instruction target content tail rest ih =>
    obtain ⟨hmem, hrun⟩ := ih (by simpa [outerRunsAmong, outerRuns] using h)
    exact ⟨List.mem_append_right _ hmem, hrun⟩

/-- Every run stands in one that stands in no other. -/
theorem exists_outerRun (h : node ∈ subtrees l) (hrun : node.isRun = true) :
    ∃ run ∈ outerRunsAmong l, node ∈ subtree run := by
  induction l using forest_induction with
  | nil => cases h
  | element tag text children tail rest ihc ihr =>
    rw [outerRunsAmong, outerRuns]
    rcases List.mem_append.1 h with h | h
    · split
      · exact ⟨_, by simp, h⟩
      · next hnot =>
        rcases List.mem_cons.1 h with rfl | h
        · exact absurd hrun hnot
        · obtain ⟨run, hmem, hnode⟩ := ihc h
          exact ⟨run, List.mem_append_left _ hmem, hnode⟩
    · obtain ⟨run, hmem, hnode⟩ := ihr h
      exact ⟨run, List.mem_append_right _ hmem, hnode⟩
  | comment content tail rest ih | instruction target content tail rest ih =>
    rcases List.mem_cons.1 h with rfl | h
    · cases hrun
    · exact ih h

/-- No bar in a run is glued to a digit if none is in the runs that stand in no other. -/
theorem not_hasGluedText_iff :
    (∀ n ∈ subtrees l, ¬ HasGluedText n) ↔ ∀ run ∈ outerRunsAmong l, ¬ HasGluedText run := by
  refine ⟨fun h run hmem => h run (mem_of_mem_outerRunsAmong hmem).1, fun h n hn hglued => ?_⟩
  have hrun := isRun_of_hasGluedText hglued
  obtain ⟨run, hmem, hnode⟩ := exists_outerRun hn hrun
  refine h run hmem ?_
  rw [HasGluedText, runText?_of_isRun (mem_of_mem_outerRunsAmong hmem).2]
  rw [HasGluedText, runText?_of_isRun hrun] at hglued
  exact hglued.of_infix (isInfix_joinedText (by simpa using hnode))

theorem gluedLoad_eq_zero_iff : gluedLoad l = 0 ↔ ∀ run ∈ outerRunsAmong l, ¬ HasGluedText run := by
  simp only [gluedLoad, List.sum_eq_zero_iff_forall_eq_nat, List.forall_mem_map, gluedBars_eq_zero_iff, HasGluedText]

/-! ### One round -/

theorem splitFirstAmong?_eq_none_iff_subtrees : splitFirstAmong? l = none ↔ ∀ n ∈ subtrees l, ¬ HasGluedText n := by
  induction l using forest_induction with
  | nil => simp [splitFirstAmong?]
  | element tag text children tail rest ihc ihr =>
    have hin : splitFirstIn? (element tag text children tail) = none ↔
        ∀ n ∈ subtree (element tag text children tail), ¬ HasGluedText n := by
      rw [splitFirstIn?, subtree, List.forall_mem_cons, ← ihc, ← splitNormRun?_eq_none_iff]
      split <;> simp_all
    rw [subtrees_cons, List.forall_mem_append, ← hin, ← ihr, splitFirstAmong?]
    split <;> simp_all
  | comment content tail rest ih | instruction target content tail rest ih =>
    simp only [splitFirstAmong?, splitFirstIn?, Option.map_eq_none_iff, ih, subtrees_cons, subtree, List.singleton_append,
      List.forall_mem_cons]
    exact (and_iff_right fun hglued => by cases isRun_of_hasGluedText hglued).symm

theorem splitFirstAmong?_eq_none_iff : splitFirstAmong? l = none ↔ ∀ run ∈ outerRunsAmong l, ¬ HasGluedText run :=
  splitFirstAmong?_eq_none_iff_subtrees.trans not_hasGluedText_iff

/-- One run that stands in no other is split, and the others stay as they are. -/
def SplitsRun (old new : List Node) : Prop :=
  ∃ front run rest parts, splitNormRun? run = some parts ∧ outerRunsAmong old = front ++ run :: rest ∧
    outerRunsAmong new = front ++ (outerRunsAmong parts ++ rest)

theorem splitsRun_of_splitNormRun? (h : splitNormRun? node = some new) : SplitsRun [node] new := by
  refine ⟨[], node, [], new, h, ?_, by simp⟩
  rw [outerRunsAmong, outerRuns_of_isRun (isRun_of_hasGluedText (hasGluedText_of_splitNormRun? h))]
  rfl

theorem SplitsRun.before (h : SplitsRun l new) (m : List Node) : SplitsRun (l ++ m) (new ++ m) := by
  obtain ⟨front, run, rest, parts, hparts, hold, hnew⟩ := h
  exact ⟨front, run, rest ++ outerRunsAmong m, parts, hparts, by simp [outerRunsAmong_append, hold],
    by simp [outerRunsAmong_append, hnew]⟩

theorem SplitsRun.behind (h : SplitsRun l new) (m : List Node) : SplitsRun (m ++ l) (m ++ new) := by
  obtain ⟨front, run, rest, parts, hparts, hold, hnew⟩ := h
  exact ⟨outerRunsAmong m ++ front, run, rest, parts, hparts, by simp [outerRunsAmong_append, hold],
    by simp [outerRunsAmong_append, hnew]⟩

theorem SplitsRun.inside {tag : Tag} {text : Option Text} {tail : Text} (h : SplitsRun l new)
    (hrun : ¬ (element tag text l tail).isRun = true) :
    SplitsRun [element tag text l tail] [element tag text new tail] := by
  have hrun' : ¬ (element tag text new tail).isRun = true := hrun
  simpa only [SplitsRun, outerRunsAmong, outerRuns_element_of_not_isRun hrun, outerRuns_element_of_not_isRun hrun',
    List.append_nil] using h

/-- A round that changes something splits one of the runs that stand in no other. -/
theorem splitsRun_of_splitFirstAmong? (h : splitFirstAmong? l = some new) : SplitsRun l new := by
  induction l using forest_induction generalizing new with
  | nil => cases h
  | element tag text children tail rest ihc ihr =>
    rw [splitFirstAmong?] at h
    split at h
    · next first hfirst =>
      obtain rfl := Option.some.inj h
      refine SplitsRun.before (l := [_]) ?_ rest
      rw [splitFirstIn?] at hfirst
      split at hfirst
      · next hsplit =>
        obtain rfl := Option.some.inj hfirst
        exact splitsRun_of_splitNormRun? hsplit
      · next hnone =>
        obtain ⟨children', hchildren, rfl⟩ := Option.map_eq_some_iff.1 hfirst
        refine (ihc hchildren).inside fun hrun => ?_
        -- what is glued in a run is glued in the text of the run
        have hlast : splitFirstAmong? [element tag text children tail] = none := by
          rw [splitFirstAmong?_eq_none_iff, outerRunsAmong, outerRuns_of_isRun hrun]
          simpa [outerRunsAmong] using splitNormRun?_eq_none_iff.1 hnone
        simp [splitFirstAmong?, splitFirstIn?, hnone, hchildren] at hlast
    · obtain ⟨rest', hrest, rfl⟩ := Option.map_eq_some_iff.1 h
      exact (ihr hrest).behind [_]
  | comment content tail rest ih | instruction target content tail rest ih =>
    obtain ⟨rest', hrest, rfl⟩ := Option.map_eq_some_iff.1 h
    exact (ih hrest).behind [_]

/-! ### What one run is split into -/

/-- The runs that stand in no other run have the given texts and properties. -/
def ReadsInRuns (properties : Option Node) (l : List Node) (texts : List Text) : Prop :=
  outerRunsAmong l = texts.map fun text => run text properties

theorem ReadsInRuns.append {a b : List Node} {s t : List Text} (ha : ReadsInRuns properties a s)
    (hb : ReadsInRuns properties b t) : ReadsInRuns properties (a ++ b) (s ++ t) := by
  rw [ReadsInRuns, outerRunsAmong_append, ha, hb, List.map_append]

theorem readsInRuns_run (text : Text) (properties : Option Node) :
    ReadsInRuns properties [run text properties] [text] := by
  rw [ReadsInRuns, outerRunsAmong, outerRuns_of_isRun (isRun_run text properties)]
  rfl

theorem exists_readsInRuns_runUnlessEmpty (text : Text) (properties : Option Node) :
    ∃ texts, ReadsInRuns properties (runUnlessEmpty text properties) texts ∧
      (texts.map gluedBars).sum = gluedBars text := by
  unfold runUnlessEmpty
  split
  · next hempty => exact ⟨[], rfl, by rw [List.isEmpty_iff.1 hempty]; rfl⟩
  · exact ⟨[text], readsInRuns_run text properties, by simp⟩

theorem readsInRuns_mathElement {name : Text} {texts : List Text} (hname : name ≠ "r")
    (h : ReadsInRuns properties l texts) : ReadsInRuns properties [mathElement name l] texts := by
  have hrun : ¬ (mathElement name l).isRun = true := by
    rw [isRun, isNamed_mathElement]
    simpa using hname
  rw [ReadsInRuns, outerRunsAmong, mathElement, outerRuns_element_of_not_isRun hrun, outerRunsAmong, List.append_nil, h]

/-- A bar with its digits as scripts is one run with the bar, and runs with all digits. -/
theorem exists_readsInRuns_scriptedBar {digits : Text} (properties : Option Node) (hne : digits ≠ [])
    (hdigits : ∀ c ∈ digits, isScriptDigit c = true) : ∃ parts, parts ≠ [] ∧
      ReadsInRuns properties [scriptedBar digits properties] (normBar :: parts) ∧
      ∀ part ∈ parts, part ≠ [] ∧ ∀ c ∈ part, isScriptDigit c = true := by
  unfold scriptedBar
  split
  · next d e rest =>
    refine ⟨[[d], e :: rest], by simp, ?_, ?_⟩
    · refine readsInRuns_mathElement (by decide) ?_
      exact (readsInRuns_mathElement (by decide) (readsInRuns_run _ _)).append
        ((readsInRuns_mathElement (by decide) (readsInRuns_run _ _)).append
          (readsInRuns_mathElement (by decide) (readsInRuns_run _ _)))
    · obtain ⟨hd, hrest⟩ := List.forall_mem_cons.1 hdigits
      simpa [hd] using hrest
  · refine ⟨[digits], by simp, readsInRuns_mathElement (by decide) ?_, by simpa using ⟨hne, hdigits⟩⟩
    exact (readsInRuns_mathElement (by decide) (readsInRuns_run _ _)).append
      (readsInRuns_mathElement (by decide) (readsInRuns_run _ _))

/-- The runs that a run is split into: their texts, with the properties of the run. -/
theorem exists_readsInRuns_splitNormRun? (hsplit : splitNormRun? node = some new) :
    ∃ texts, ReadsInRuns node.runProperties? new texts ∧
      gluedBars (node.runText?.getD []) = 1 + (texts.map gluedBars).sum ∧
      ∃ digits ∈ texts, digits ≠ [] ∧ ∀ c ∈ digits, isScriptDigit c = true := by
  unfold splitNormRun? at hsplit
  split at hsplit
  · next before digits after hbreak =>
    obtain rfl := Option.some.inj hsplit
    obtain ⟨hbefore, hsum⟩ := gluedBars_of_breakAt?_eq_some hbreak
    obtain ⟨hne, hdigits⟩ := digits_of_breakAt? hbreak
    have hplain : ∀ c ∈ digits.map plainDigit, isScriptDigit c = true :=
      List.forall_mem_map.2 fun c hc => (CodePoint.isScriptDigit_plainDigit (hdigits c hc)).1
    obtain ⟨front, hfront, hfrontSum⟩ := exists_readsInRuns_runUnlessEmpty before node.runProperties?
    obtain ⟨parts, hparts, hbar, hpart⟩ :=
      exists_readsInRuns_scriptedBar node.runProperties? (mt List.map_eq_nil_iff.1 hne) hplain
    obtain ⟨rest, hrest, hrestSum⟩ := exists_readsInRuns_runUnlessEmpty after node.runProperties?
    refine ⟨front ++ (normBar :: parts ++ rest), hfront.append (hbar.append hrest), ?_, ?_⟩
    · have hpartsSum : (parts.map gluedBars).sum = 0 := by
        rw [List.sum_eq_zero_iff_forall_eq_nat]
        exact List.forall_mem_map.2 fun part hmem => gluedBars_of_digits (hpart part hmem).2
      have hnorm : gluedBars normBar = 0 := by decide
      simp only [List.map_append, List.map_cons, List.sum_append, List.sum_cons]
      omega
    · obtain ⟨part, hmem⟩ := List.exists_mem_of_ne_nil parts hparts
      exact ⟨part, by simp [hmem], hpart part hmem⟩
  · cases hsplit

/-! ### All rounds -/

/-- A run with a glued bar whose new runs have glued bars again. -/
def IsStuck (node : Node) : Prop := HasGluedText node ∧ ¬ LeavesDigitsLoose node.runProperties?

theorem isNamed_of_mem_runProperties? {p : Node} (h : p ∈ node.runProperties?) : p.isNamed "rPr" = true := by
  have hfind : node.children.find? (fun n => n.isNamed "rPr") = some p := h
  exact (List.find?_eq_some_iff_append.1 hfind).1

theorem joinedText_mathElement {name : Text} (l : List Node) (h : name ≠ "t") :
    joinedText [mathElement name l] = joinedText l := by
  have hnot : (mathElement name l).isNamed "t" = false := by
    rw [isNamed_mathElement]
    simpa using h
  rw [joinedText, subtrees_cons, subtrees_nil, List.append_nil]
  exact congrArg _ (List.filter_cons_of_neg (by rw [← mathElement, hnot]; decide))

theorem runText?_run (node : Node) (text : Text) : (run text node.runProperties?).runText? =
    some (joinedText node.runProperties?.toList ++ text) := by
  have htext : joinedText [textElement text] = text := by
    simp [joinedText, textElement, subtree, isNamed, name?, tag?, mathName, text?]
  rw [runText?_of_isRun (isRun_run text _), run_eq, joinedText_mathElement _ (by decide), joinedText_append, htext]

theorem runProperties?_run (text : Text) : (run text node.runProperties?).runProperties? = node.runProperties? := by
  cases h : node.runProperties? with
  | none => rfl
  | some p =>
    have hp : p.isNamed "rPr" = true := isNamed_of_mem_runProperties? h
    simp [run_eq, runProperties?, slot?, hp]

/-- The texts of the runs that a round puts in the place of one. -/
theorem exists_of_splitFirstAmong? {l' : List Node} (h : splitFirstAmong? l = some l') :
    ∃ front run rest, ∃ texts : List Text, HasGluedText run ∧ outerRunsAmong l = front ++ run :: rest ∧
      outerRunsAmong l' = front ++ (texts.map (Omml.run · (runProperties? run)) ++ rest) ∧
      gluedBars (run.runText?.getD []) = 1 + (texts.map gluedBars).sum ∧
      ∃ digits ∈ texts, digits ≠ [] ∧ ∀ c ∈ digits, isScriptDigit c = true := by
  obtain ⟨front, run, rest, parts, hparts, hbefore, hafter⟩ := splitsRun_of_splitFirstAmong? h
  obtain ⟨texts, htexts, hsum, hdigits⟩ := exists_readsInRuns_splitNormRun? hparts
  exact ⟨front, run, rest, texts, hasGluedText_of_splitNormRun? hparts, hbefore, by rw [hafter, htexts], hsum, hdigits⟩

/-- A round takes one glued bar away and leaves no run stuck, if none was. -/
theorem gluedLoad_splitFirstAmong? {l' : List Node} (hsplit : splitFirstAmong? l = some l')
    (h : ∀ run ∈ outerRunsAmong l, ¬ IsStuck run) :
    gluedLoad l = 1 + gluedLoad l' ∧ ∀ run ∈ outerRunsAmong l', ¬ IsStuck run := by
  obtain ⟨front, run, rest, texts, hglued, hbefore, hafter, hsum, -⟩ := exists_of_splitFirstAmong? hsplit
  have hloose : LeavesDigitsLoose run.runProperties? := by
    by_contra hstuck
    exact h run (by simp [hbefore]) ⟨hglued, hstuck⟩
  constructor
  · have hnew : (texts.map (Omml.run · (runProperties? run))).map (fun run => gluedBars (run.runText?.getD [])) =
        texts.map gluedBars := by
      rw [List.map_map]
      refine List.map_congr_left fun text _ => ?_
      rw [Function.comp_apply, runText?_run, Option.getD_some, hloose.gluedBars]
    simp only [gluedLoad, hbefore, hafter, List.map_append, hnew, List.map_cons, List.sum_append, List.sum_cons, hsum]
    omega
  · intro other hmem
    rw [hafter] at hmem
    rcases List.mem_append.1 hmem with hmem | hmem
    · exact h other (by simp [hbefore, hmem])
    rcases List.mem_append.1 hmem with hmem | hmem
    · obtain ⟨text, -, rfl⟩ := List.mem_map.1 hmem
      intro hstuck
      exact hstuck.2 (by rwa [runProperties?_run])
    · exact h other (by simp [hbefore, hmem])

/-- A round puts a stuck run in the place of a stuck run. -/
theorem exists_isStuck_splitFirstAmong? {l' : List Node} (hsplit : splitFirstAmong? l = some l')
    (h : ∃ run ∈ outerRunsAmong l, IsStuck run) : ∃ run ∈ outerRunsAmong l', IsStuck run := by
  obtain ⟨front, run, rest, texts, hglued, hbefore, hafter, -, digits, hmem, hne, hdigits⟩ :=
    exists_of_splitFirstAmong? hsplit
  by_cases hstuck : IsStuck run
  · refine ⟨Omml.run digits run.runProperties?, ?_, ?_, ?_⟩
    · rw [hafter]
      exact List.mem_append_right _ (List.mem_append_left _ (List.mem_map_of_mem hmem))
    · rw [HasGluedText, runText?_run]
      exact isGlued_append_digits hstuck.2 hne hdigits
    · rw [runProperties?_run]
      exact hstuck.2
  · obtain ⟨other, hother, hstuck'⟩ := h
    refine ⟨other, ?_, hstuck'⟩
    rw [hbefore, List.mem_append, List.mem_cons] at hother
    rw [hafter, List.mem_append, List.mem_append]
    rcases hother with hother | rfl | hother
    · exact .inl hother
    · exact absurd hstuck' hstuck
    · exact .inr (.inr hother)

theorem gluedLoad_splitNormRunsFor (rounds : Nat) (h : ∀ run ∈ outerRunsAmong l, ¬ IsStuck run) :
    gluedLoad (splitNormRunsFor rounds l) = gluedLoad l - rounds := by
  induction rounds generalizing l with
  | zero => rfl
  | succ rounds ih =>
    rw [splitNormRunsFor]
    split
    · next l' hsplit =>
      obtain ⟨hload, hnone⟩ := gluedLoad_splitFirstAmong? hsplit h
      rw [ih hnone]
      omega
    · next hnone =>
      have hzero := gluedLoad_eq_zero_iff.2 (splitFirstAmong?_eq_none_iff.1 hnone)
      omega

theorem exists_isStuck_splitNormRunsFor (rounds : Nat) (h : ∃ run ∈ outerRunsAmong l, IsStuck run) :
    ∃ run ∈ outerRunsAmong (splitNormRunsFor rounds l), IsStuck run := by
  induction rounds generalizing l with
  | zero => exact h
  | succ rounds ih =>
    rw [splitNormRunsFor]
    split
    · next l' hsplit => exact ih (exists_isStuck_splitFirstAmong? hsplit h)
    · exact h

end Runs

/-- Digits stay glued to bars exactly if more of them are than there are rounds, or if a run is stuck. -/
theorem not_isGlued_repairNorms_iff (f : Fragment) :
    (∀ n ∈ (repairNorms f).nodes, ∀ text, n.runText? = some text → ¬ IsGlued text) ↔
      gluedLoad f.children ≤ maxNormRounds ∧
        ∀ run ∈ outerRunsAmong f.children, HasGluedText run → LeavesDigitsLoose run.runProperties? := by
  have htext : ∀ n : Node, (∀ text, n.runText? = some text → ¬ IsGlued text) ↔ ¬ HasGluedText n := by
    intro n
    rw [HasGluedText]
    cases n.runText? with
    | none => simpa using gluedBars_eq_zero_iff.1 rfl
    | some text => simp
  simp only [htext]
  rw [Fragment.nodes, not_hasGluedText_iff, ← gluedLoad_eq_zero_iff]
  have hstuck : (∀ run ∈ outerRunsAmong f.children, HasGluedText run → LeavesDigitsLoose run.runProperties?) ↔
      ∀ run ∈ outerRunsAmong f.children, ¬ IsStuck run := by
    simp only [IsStuck, not_and, not_not]
  rw [hstuck]
  constructor
  · intro hzero
    have hnone : ∀ run ∈ outerRunsAmong f.children, ¬ IsStuck run := by
      by_contra hsome
      push Not at hsome
      obtain ⟨run, hmem, hrun⟩ := exists_isStuck_splitNormRunsFor maxNormRounds hsome
      exact gluedLoad_eq_zero_iff.1 hzero run hmem hrun.1
    have hload := gluedLoad_splitNormRunsFor maxNormRounds hnone
    refine ⟨?_, hnone⟩
    rw [show splitNormRunsFor maxNormRounds f.children = (repairNorms f).children from rfl, hzero] at hload
    omega
  · rintro ⟨hle, hnone⟩
    have hload := gluedLoad_splitNormRunsFor maxNormRounds hnone
    show gluedLoad (splitNormRunsFor maxNormRounds f.children) = 0
    omega

/-- Bars with a digit each, all in one run. -/
def barsInOneRun (count : Nat) : Fragment := ⟨none, [plainRun (List.replicate count (normBar ++ ("2" : Text))).flatten]⟩

theorem outerRunsAmong_barsInOneRun (count : Nat) :
    outerRunsAmong (barsInOneRun count).children = (barsInOneRun count).children :=
  readsInRuns_run _ none

theorem gluedLoad_barsInOneRun (count : Nat) : gluedLoad (barsInOneRun count).children = count := by
  have hbars : gluedBars (List.replicate count (normBar ++ ("2" : Text))).flatten = count := by
    induction count with
    | zero => rfl
    | succ count ih =>
      rw [List.replicate_succ, List.flatten_cons, List.append_assoc, gluedBars_normBar_append,
        beginsWithDigit_append (by decide), gluedBars_append_of_digits (by decide), ih, Nat.add_comm]
      rfl
  have htext := runText?_run (mathElement "r" []) (List.replicate count (normBar ++ ("2" : Text))).flatten
  rw [gluedLoad, outerRunsAmong_barsInOneRun, barsInOneRun, List.map_singleton, List.sum_singleton, plainRun]
  refine Eq.trans ?_ hbars
  exact congrArg (fun text : Option Text => gluedBars (text.getD [])) htext

/-- More glued bars than there are rounds are not all taken apart. -/
theorem exists_isGlued_barsInOneRun {count : Nat} (h : maxNormRounds < count) :
    ∃ n ∈ (repairNorms (barsInOneRun count)).nodes, ∃ text, n.runText? = some text ∧ IsGlued text := by
  have hloose : ∀ run ∈ outerRunsAmong (barsInOneRun count).children, ¬ IsStuck run := by
    intro run hmem hstuck
    rw [outerRunsAmong_barsInOneRun, barsInOneRun, List.mem_singleton] at hmem
    refine hstuck.2 (leavesDigitsLoose_of_textless ?_)
    rw [hmem]
    rfl
  have hload := gluedLoad_splitNormRunsFor maxNormRounds hloose
  rw [gluedLoad_barsInOneRun] at hload
  have hglued : ¬ ∀ n ∈ (repairNorms (barsInOneRun count)).nodes, ¬ HasGluedText n := by
    intro hnone
    have hzero : gluedLoad (splitNormRunsFor maxNormRounds (barsInOneRun count).children) = 0 :=
      gluedLoad_eq_zero_iff.2 (not_hasGluedText_iff.1 hnone)
    omega
  push Not at hglued
  obtain ⟨n, hmem, hglued⟩ := hglued
  exact ⟨n, hmem, _, runText?_of_isRun (isRun_of_hasGluedText hglued),
    by rwa [HasGluedText, runText?_of_isRun (isRun_of_hasGluedText hglued)] at hglued⟩

/-- Of sixty-five glued bars one is left. -/
theorem exists_isGlued_repairNorms : ∃ n ∈ (repairNorms (barsInOneRun 65)).nodes, ∃ text,
    n.runText? = some text ∧ IsGlued text :=
  exists_isGlued_barsInOneRun (by decide)

end EquationExport.Omml
