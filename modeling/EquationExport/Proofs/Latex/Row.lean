import EquationExport.Proofs.Latex.Change
import EquationExport.Proofs.Latex.Environment
import EquationExport.Proofs.Latex.OuterPair

/-!
# Rows

The rows of a formula end with row separators, two backslashes in a row that are read as one control symbol. The steps
to the normal form bring no row separators in. They lose one where the word of a size, a style or a wide space stands
directly behind it: in `a\\quad b` the second backslash is taken for the backslash of `\quad`. Narrow and negative
spaces are not looked for behind a backslash, so that `a\\,b` keeps its row separator.
-/

namespace EquationExport.Latex

open Reached

variable {before : Option CodePoint} {s t old rest put out : Text} {places : List (Text × Text)} {rule : Text.Rule}
  {clean : Text → Prop} {r r' : Reached} {c : CodePoint}

/-! ### Counting row separators -/

namespace Reached

/-- How many row separators end while a text is read. -/
def rows (r : Reached) (s : Text) : Nat := (r.symbols s).count ('\\' : CodePoint)

/-- One backslash that the next may make a row separator, or none. -/
def lone (r : Reached) : Nat := if r = backslash then 1 else 0

@[simp] theorem rows_nil (r : Reached) : r.rows [] = 0 := rfl

theorem rows_append (r : Reached) (s t : Text) : r.rows (s ++ t) = r.rows s + (r.read s).rows t := by
  rw [rows, symbols_append, List.count_append]
  rfl

theorem rows_cons (r : Reached) (c : CodePoint) (s : Text) :
    r.rows (c :: s) = (if c = '\\' then r.lone else 0) + (r.next c).rows s := by
  have hletter : ('\\' : CodePoint).isAsciiLetter = false := by decide
  rw [rows, symbols_cons, List.count_append, symbol, lone, rows]
  by_cases hc : c = '\\'
  · by_cases hr : r = backslash <;> simp [hc, hr, hletter]
  · by_cases hr : r = backslash <;> cases h : c.isAsciiLetter <;> simp [hc, hr]

theorem lone_of_ne (h : r ≠ backslash) : r.lone = 0 := if_neg h

theorem lone_next (r : Reached) (c : CodePoint) : (r.next c).lone = if c = '\\' then 1 - r.lone else 0 := by
  simp only [lone, next_eq_backslash_iff]
  by_cases hr : r = backslash <;> simp [hr]

theorem InStep.lone_eq (h : InStep r r') : r.lone = r'.lone := if_congr h rfl rfl

theorem rows_of_not_mem (h : ('\\' : CodePoint) ∉ s) (r : Reached) : r.rows s = 0 :=
  List.count_eq_zero.2 fun hmem => h (symbols_subset r s hmem)

/-- A command ends a row separator if its backslash is the second of two. -/
theorem rows_command (h : ('\\' : CodePoint) ∉ s) (r : Reached) : r.rows ('\\' :: s) = r.lone := by
  rw [rows_cons, rows_of_not_mem h, if_pos rfl, Nat.add_zero]

end Reached

theorem rowSeparators_eq (s : Text) : rowSeparators s = token.rows s := by
  rw [rowSeparators, controlSymbols_eq]
  rfl

/-! ### No row separators are brought in -/

/-- What is taken away ends a row separator if it is a command and a lone backslash stands in front of it. -/
theorem Change.rows_old (h : Change before old put) (r : Reached) :
    r.rows old = if ('\\' : CodePoint) ∈ old then r.lone else 0 := by
  obtain ⟨c, tail, rfl⟩ := List.exists_cons_of_ne_nil h.ne_nil
  have htail : ('\\' : CodePoint) ∉ tail := h.backslash_not_mem_tail
  have hmem : ('\\' : CodePoint) ∈ c :: tail ↔ c = '\\' := by
    rw [List.mem_cons]
    exact ⟨fun h => (h.resolve_right htail).symm, fun h => .inl h.symm⟩
  simp only [rows_cons, rows_of_not_mem htail, hmem, Nat.add_zero]

theorem rows_fraction (r : Reached) : r.rows "\\frac" = r.lone := rows_command (by decide) r

/-- A row separator more behind a change is one that a lone backslash in front of it was good for. -/
theorem Change.rows_le (h : Change before old put) (r r' : Reached) :
    r'.rows put + (r'.read put).lone ≤ r.rows old + (r'.lone - r.lone) := by
  rcases h.put_cases with ⟨rfl, hmem⟩ | rfl | ⟨rfl, hmem⟩
  · rw [h.rows_old, if_pos hmem, rows_nil, read_nil]
    omega
  · rw [lone_of_ne (h.read_put_ne fun hnil => absurd hnil (by decide)), rows_of_not_mem (by decide)]
    exact Nat.zero_le _
  · rw [h.rows_old, if_pos hmem, lone_of_ne (h.read_put_ne fun hnil => absurd hnil (by decide)), rows_fraction]
    omega

/--
The reader of what is put out never gets ahead of the reader of the source by more than the lone backslash that it
stands behind.
-/
theorem rows_le_of_rewriting (hrule : Changes rule) (h : Text.Rewriting rule out before s t places) (r : Reached) :
    (token.read out).rows t ≤ r.rows s + ((token.read out).lone - r.lone) := by
  induction h generalizing r with
  | done => exact Nat.zero_le _
  | @keep out before c s t places _ _ ih =>
    have hrest := ih (r.next c)
    rw [read_append, read_cons, read_nil, lone_next, lone_next] at hrest
    rw [rows_cons, rows_cons]
    -- A backslash takes away what one reader is ahead by and puts the other ahead by as much.
    by_cases hc : c = '\\' <;> simp only [hc, if_true, if_false] at hrest ⊢ <;> omega
  | @apply out before old rest put t places hold happly _ ih =>
    have hchange := hrule hold happly
    have hrest := ih (r.read old)
    have hput := hchange.rows_le r (token.read out)
    rw [read_append, lone_of_ne (hchange.read_ne r)] at hrest
    rw [rows_append, rows_append]
    omega

theorem rowSeparators_substitute_le (rule : Text.Rule) (hrule : Changes rule) (hadvances : rule.Advances) (s : Text) :
    rowSeparators (s.substitute rule) ≤ rowSeparators s := by
  rw [rowSeparators_eq, rowSeparators_eq]
  exact rows_le_of_rewriting hrule (Text.rewriting_substitute hadvances s) token

/-! ### Row separators that are kept -/

/-- The rule takes no command away behind a lone backslash, as long as what has been put out is `clean`. -/
def SparesRows (rule : Text.Rule) (clean : Text → Prop) : Prop :=
  ∀ {before out old rest put r}, rule before (old ++ rest) = some (put, rest) → clean out →
    (r = backslash → before = some '\\') → InStep r (token.read out) → ('\\' : CodePoint) ∈ old → ('\\' : CodePoint) ∉ put →
    token.read out ≠ backslash

/-- A change keeps row separators, unless a command is taken away behind a lone backslash. -/
theorem Change.rows_eq (h : Change before old put) (hstep : InStep r r')
    (hr' : ('\\' : CodePoint) ∈ old → ('\\' : CodePoint) ∉ put → r' ≠ backslash) : r.rows old = r'.rows put := by
  rw [h.rows_old, hstep.lone_eq]
  rcases h.put_cases with ⟨rfl, hmem⟩ | rfl | ⟨rfl, hmem⟩
  · rw [if_pos hmem, lone_of_ne (hr' hmem (by simp)), rows_nil]
  · rw [rows_of_not_mem (by decide)]
    split
    · next hmem => exact lone_of_ne (hr' hmem (by decide))
    · rfl
  · rw [if_pos hmem, rows_fraction]

/-- Readers that are in step stay in step, and count the same row separators. -/
theorem rows_eq_of_rewriting (hrule : Changes rule) (hspares : SparesRows rule clean)
    (h : Text.Rewriting rule out before s t places) :
    ∀ {r}, (∀ place ∈ places, clean place.1) → (r = backslash → before = some '\\') → InStep r (token.read out) →
      (token.read out).rows t = r.rows s := by
  induction h with
  | done => exact fun _ _ _ => rfl
  | @keep out before c s t places _ _ ih =>
    intro r hclean _ hstep
    have hnext : InStep (r.next c) (token.read (out ++ [c])) := by
      rw [read_append]
      exact hstep.next c
    have hrest := ih hclean (fun hback => by rw [(next_eq_backslash_iff.1 hback).2]; rfl) hnext
    rw [read_append, read_cons, read_nil] at hrest
    rw [rows_cons, rows_cons, hrest, hstep.lone_eq]
  | @apply out before old rest put t places hold happly _ ih =>
    intro r hclean hbefore hstep
    have hchange := hrule hold happly
    have hlone := hspares happly (hclean _ List.mem_cons_self) hbefore hstep
    have hread : InStep (r.read old) (token.read (out ++ put)) := by
      rw [read_append]
      exact hchange.inStep fun hnil => hlone (hchange.mem_of_put_eq_nil hnil) (by simp [hnil])
    have hrest := ih (fun place hplace => hclean place (List.mem_cons_of_mem _ hplace))
      (fun hback => absurd hback (hchange.read_ne r)) hread
    rw [read_append] at hrest
    rw [rows_append, rows_append, hrest, hchange.rows_eq hstep hlone]

theorem rowSeparators_substitute (rule : Text.Rule) (hrule : Changes rule) (hadvances : rule.Advances) (hspares : SparesRows rule clean)
    (hclean : ∀ place ∈ s.applications rule, clean place.1) : rowSeparators (s.substitute rule) = rowSeparators s := by
  rw [rowSeparators_eq, rowSeparators_eq]
  exact rows_eq_of_rewriting hrule hspares (Text.rewriting_substitute hadvances s) hclean (fun hback => by cases hback) .rfl

/-- Where a rule is applied behind no lone backslash, it takes no command away there. -/
theorem sparesRows_of_ne (rule : Text.Rule) : SparesRows rule (token.read · ≠ backslash) := fun _ hclean _ _ _ _ => hclean

/-- A negative space is not looked for behind a backslash. -/
theorem sparesRows_negativeSpaceDeletion : SparesRows negativeSpaceDeletion fun _ => True := by
  intro before out old rest put r happly _ hbefore hstep _ _
  obtain ⟨-, hnot, -⟩ := exists_of_negativeSpaceDeletion happly
  exact fun hback => hnot (hbefore (hstep.2 hback))

/-- A fraction is replaced by a command. -/
theorem sparesRows_fractionRule : SparesRows fractionRule fun _ => True := by
  intro before out old rest put r happly _ _ _ _ hput
  obtain ⟨rfl, -⟩ := exists_of_fractionRule happly
  exact absurd List.mem_cons_self hput

/-- A gap is no command. -/
theorem sparesRows_gapRule : SparesRows gapRule fun _ => True := by
  intro before out old rest put r happly _ _ _ hmem _
  obtain ⟨-, gap, hs, -, hquiet⟩ := exists_of_gapRule happly
  obtain rfl : old = gap := (List.append_left_inj rest).1 hs
  exact absurd hmem (backslash_not_mem_of_isQuiet hquiet)

/-! ### Sources without environments -/

/-- An environment is expanded where it opens, if it has an end. -/
theorem expandMatrix?_eq_none_iff : expandMatrix? s = none ↔
    ∀ e ∈ environments, ∀ after, s = opening e.name ++ after → ¬ closing e.name <:+: after := by
  constructor
  · rintro h e he after rfl hpart
    rw [expandMatrix?_opening he, Option.map_eq_none_iff, body?, Option.or_eq_none_iff, Text.breakOn?_eq_none_iff] at h
    exact h.2 hpart
  · intro h
    cases hexpand : expandMatrix? s with
    | none => rfl
    | some change =>
      obtain ⟨put, rest⟩ := change
      obtain ⟨kind, hkind, name, hname, argument, body, hs, -, -⟩ := exists_of_expandMatrix? hexpand
      obtain ⟨e, he, rfl, rfl⟩ := exists_environment hkind hname
      exact absurd ⟨argument ++ body, rest, by simp⟩ (h e he _ hs)

/-- A part of a source without environments has none. -/
theorem holds_expandMatrix?_of_part (hpart : t <:+: s) (h : s.holds expandMatrix? = false) :
    t.holds expandMatrix? = false := by
  rw [Text.holds, Option.isSome_eq_false_iff, Option.isNone_iff_eq_none, Text.breakAt?_eq_none_iff] at h ⊢
  obtain ⟨front, behind, rfl⟩ := hpart
  intro i hi
  have hwhole := h (front.length + i) (by simp only [List.length_append]; omega)
  rw [List.append_assoc, List.drop_length_add_append, List.drop_append_of_le_length hi] at hwhole
  rw [expandMatrix?_eq_none_iff] at hwhole ⊢
  intro e he after heq hclosing
  exact hwhole e he (after ++ behind) (by rw [heq, List.append_assoc]) (hclosing.trans (List.infix_append' [] after behind))

theorem expandMatrixEnvironments_of_holds (h : s.holds expandMatrix? = false) : expandMatrixEnvironments s = s := by
  rw [Text.holds, Option.isSome_eq_false_iff, Option.isNone_iff_eq_none, Text.breakAt?_eq_none_iff] at h
  have hpasses : Text.Passes expandMatrix? s [] := by
    rintro u _ ⟨front, rfl⟩
    have hrest := h front.length (by simp)
    rwa [List.drop_left, ← List.append_nil u] at hrest
  have hsame := hpasses.substitute
  rw [List.append_nil] at hsame
  exact if_pos (hsame.trans (List.append_nil s))

theorem stripMathDelimiters_isInfix (s : Text) : stripMathDelimiters s <:+: s := by
  rw [stripMathDelimiters_eq]
  refine List.IsInfix.trans ?_ (Text.trim_isInfix s)
  cases hpair : outerPair? s with
  | none => exact List.infix_refl _
  | some pair =>
    obtain ⟨-, heq⟩ := exists_of_outerPair? hpair
    rw [heq]
    exact (Text.trim_isInfix pair.2).trans ⟨pair.1.1, pair.1.2, List.append_assoc _ _ _⟩

/-- A source without environments is expanded to what stands between its delimiters. -/
theorem expanded_eq (h : s.holds expandMatrix? = false) : expanded s = stripMathDelimiters s :=
  expandMatrixEnvironments_of_holds (holds_expandMatrix?_of_part (stripMathDelimiters_isInfix s) h)

/-! ### The normal form -/

/-- No size, style or wide space is taken away whose backslash is the second of a row separator. -/
structure Unbroken (s : Text) : Prop where
  sizes : ∀ place ∈ (expanded s).applications (wordDeletion sizeWords), token.read place.1 ≠ backslash
  styles : ∀ place ∈ (withoutSizes s).applications (wordDeletion styleWords), token.read place.1 ≠ backslash
  spaces : ∀ place ∈ (withoutStyles s).applications spacingRule, token.read place.1 ≠ backslash

theorem rowSeparators_normalize_le (s : Text) : rowSeparators (normalize s) ≤ rowSeparators (expanded s) := by
  rw [normalize_eq, rowSeparators_trim]
  calc rowSeparators ((withPlainFractions s).substitute gapRule)
      ≤ rowSeparators (withPlainFractions s) := rowSeparators_substitute_le gapRule changes_gapRule advances_gapRule _
    _ ≤ rowSeparators (withoutNegativeSpaces s) := rowSeparators_substitute_le fractionRule changes_fractionRule advances_fractionRule _
    _ ≤ rowSeparators (withPlainSpaces s) :=
      rowSeparators_substitute_le negativeSpaceDeletion changes_negativeSpaceDeletion advances_negativeSpaceDeletion _
    _ ≤ rowSeparators (withoutStyles s) := rowSeparators_substitute_le spacingRule changes_spacingRule advances_spacingRule _
    _ ≤ rowSeparators (withoutSizes s) :=
      rowSeparators_substitute_le (wordDeletion styleWords) (changes_wordDeletion _) (advances_wordDeletion _) _
    _ ≤ rowSeparators (expanded s) := rowSeparators_substitute_le (wordDeletion sizeWords) (changes_wordDeletion _) (advances_wordDeletion _) _

theorem rowSeparators_normalize_eq (h : Unbroken s) : rowSeparators (normalize s) = rowSeparators (expanded s) := by
  rw [normalize_eq, rowSeparators_trim]
  calc rowSeparators ((withPlainFractions s).substitute gapRule)
      = rowSeparators (withPlainFractions s) :=
        rowSeparators_substitute gapRule changes_gapRule advances_gapRule sparesRows_gapRule fun _ _ => trivial
    _ = rowSeparators (withoutNegativeSpaces s) :=
        rowSeparators_substitute fractionRule changes_fractionRule advances_fractionRule sparesRows_fractionRule fun _ _ => trivial
    _ = rowSeparators (withPlainSpaces s) :=
        rowSeparators_substitute negativeSpaceDeletion changes_negativeSpaceDeletion advances_negativeSpaceDeletion
          sparesRows_negativeSpaceDeletion fun _ _ => trivial
    _ = rowSeparators (withoutStyles s) :=
        rowSeparators_substitute spacingRule changes_spacingRule advances_spacingRule (sparesRows_of_ne _) h.spaces
    _ = rowSeparators (withoutSizes s) :=
        rowSeparators_substitute (wordDeletion styleWords) (changes_wordDeletion _) (advances_wordDeletion _) (sparesRows_of_ne _) h.styles
    _ = rowSeparators (expanded s) :=
        rowSeparators_substitute (wordDeletion sizeWords) (changes_wordDeletion _) (advances_wordDeletion _) (sparesRows_of_ne _) h.sizes

/--
In a source without environments the steps to the normal form bring no row separators in, and keep them all unless a
size, a style or a wide space is taken away behind a lone backslash.
-/
theorem rowSeparators_normalize (h : s.holds expandMatrix? = false) :
    rowSeparators (normalize s) ≤ rowSeparators (stripMathDelimiters s) ∧
      (Unbroken s → rowSeparators (normalize s) = rowSeparators (stripMathDelimiters s)) := by
  rw [← expanded_eq h]
  exact ⟨rowSeparators_normalize_le s, rowSeparators_normalize_eq⟩

/-- Rows with spaces of all kinds, a size and a fraction of a fixed style around their separators. -/
def spacedRows : Text := "$a\\quad\\big(x\\big)\\\\,b\\!\\\\\\dfrac12\\\\;\\\\!c$"

theorem rowSeparators_spacedRows : Unbroken spacedRows ∧ rowSeparators (normalize spacedRows) = rowSeparators (stripMathDelimiters spacedRows) := by
  have h : Unbroken spacedRows := ⟨by decide +kernel, by decide +kernel, by decide +kernel⟩
  exact ⟨h, (rowSeparators_normalize (by decide +kernel)).2 h⟩

/-- A row separator in front of the word of a wide space. -/
def wordBehindRow : Text := "a\\\\quad b"

/-- The row separator in front of such a word is lost: the normal form is `a\ b`. -/
theorem normalize_loses_wordBehindRow :
    ¬ ∀ s : Text, s.holds expandMatrix? = false → rowSeparators (normalize s) = rowSeparators (stripMathDelimiters s) := by
  intro hall
  have hlost := hall wordBehindRow (by decide +kernel)
  rw [rowSeparators_eq, rowSeparators_eq] at hlost
  exact absurd hlost (by decide +kernel)

end EquationExport.Latex
