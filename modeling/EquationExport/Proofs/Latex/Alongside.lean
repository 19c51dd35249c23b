import EquationExport.Proofs.Latex.ControlWord
import EquationExport.Proofs.Text.Rewriting
import Mathlib.Data.List.TakeWhile

/-!
# Rewrites that fuse no tokens

Two readers go through a source and through what a rule makes of it. Where the rule keeps a character they go
on together; where it puts something in the place of a command they may come to stand behind different things,
but only so that the next character ends the token of either. What the second reader takes for a control word is
then allowed, if what the first one takes for one is.
-/

namespace EquationExport.Latex

open Reached

/-- A set of control words, by their letters. -/
abbrev Allowed := Text → Prop

/-- No letter stands at the front. -/
def StartsToken (s : Text) : Prop := ∀ c ∈ s.head?, c.isAsciiLetter = false

/-- Two readers of the same text `s` take the same tokens, but for allowed words that end in front of it. -/
inductive Alongside (A : Allowed) (s : Text) : Reached → Reached → Prop where
  | same (r : Reached) : Alongside A s r r
  | apart {r r' : Reached} : r ≠ backslash → r' ≠ backslash → (∀ w ∈ r'.pending, A w) → StartsToken s →
    Alongside A s r r'

/--
What has been put out joins with what is left: a lone backslash with anything, a control word with a letter
behind it.
-/
def Joins (out rest : Text) : Prop :=
  match token.read out with
  | token => False
  | backslash => True
  | letters _ => ¬ StartsToken rest

instance (s : Text) : Decidable (StartsToken s) := inferInstanceAs (Decidable (∀ c ∈ s.head?, c.isAsciiLetter = false))

instance (out rest : Text) : Decidable (Joins out rest) := by
  unfold Joins
  split <;> infer_instance

variable {A : Allowed} {rule : Text.Rule} {r r' : Reached} {s t old rest put out : Text} {c : CodePoint}

/-- The word that the second reader is in is allowed, if another token starts. -/
theorem Alongside.pending (h : Alongside A s r r') (hwords : ∀ w ∈ r.words s, A w) (hstart : StartsToken s) :
    ∀ w ∈ r'.pending, A w := by
  cases h with
  | same => exact fun w hw => hwords w (pending_subset_words hstart hw)
  | apart _ _ hpending _ => exact hpending

/-- A character that is kept brings both readers to the same place, and ends allowed words only. -/
theorem Alongside.keep (h : Alongside A (c :: s) r r') (hwords : ∀ w ∈ r.words (c :: s), A w) :
    r.next c = r'.next c ∧ ∀ w ∈ r'.ended c, A w := by
  cases h with
  | same => exact ⟨rfl, fun w hw => hwords w (by rw [words_cons]; exact List.mem_append_left _ hw)⟩
  | apart hr hr' hpending hstart =>
    have hc : c.isAsciiLetter = false := hstart c rfl
    refine ⟨?_, fun w hw => hpending w (by simpa [ended, hc] using hw)⟩
    cases r <;> cases r' <;> simp_all [next]

/--
The rule puts allowed words only into a source, and leaves the readers alongside each other. `clean` may be
used of what has been put out and what is left.
-/
def Fits (A : Allowed) (rule : Text.Rule) (clean : Text → Text → Prop) : Prop :=
  ∀ {before out old rest put r}, rule before (old ++ rest) = some (put, rest) → old ≠ [] → clean out rest →
    (r = backslash → before = some '\\') → (∀ w ∈ r.words (old ++ rest), A w) →
    Alongside A (old ++ rest) r (token.read out) →
    (∀ w ∈ (token.read out).endedIn put, A w) ∧ Alongside A rest (r.read old) ((token.read out).read put)

/-- What a fitting rule makes of a source has allowed control words only. -/
theorem words_of_rewriting {clean : Text → Text → Prop} {before : Option CodePoint} {places : List (Text × Text)}
    (hfits : Fits A rule clean) (h : Text.Rewriting rule out before s t places) :
    ∀ {r}, (∀ place ∈ places, clean place.1 place.2) → (r = backslash → before = some '\\') →
      (∀ w ∈ r.words s, A w) → Alongside A s r (token.read out) → ∀ w ∈ (token.read out).words t, A w := by
  induction h with
  | done out before =>
    intro r _ _ hwords halong
    rw [words_nil]
    exact halong.pending hwords fun c hc => by cases hc
  | @keep out before c s t places _ hrw ih =>
    intro r hclean hbefore hwords halong w hw
    obtain ⟨hnext, hended⟩ := halong.keep hwords
    rw [words_cons, List.mem_append] at hw
    rcases hw with hw | hw
    · exact hended w hw
    · refine ih (r := r.next c) hclean (fun hback => ?_) ?_ ?_ w ?_
      · have hlast := getLast?_of_read_eq_backslash (r := r) (s := [c]) (by simp) hback
        simpa using hlast
      · exact fun w hw => hwords w (by rw [words_cons]; exact List.mem_append_right _ hw)
      · rw [read_append, read_cons, read_nil, ← hnext]
        exact .same _
      · rwa [read_append, read_cons, read_nil]
  | @apply out before old rest put t places hold happly hrw ih =>
    intro r hclean hbefore hwords halong w hw
    obtain ⟨hended, halong'⟩ := hfits happly hold (hclean _ List.mem_cons_self) hbefore hwords halong
    rw [words_append, List.mem_append] at hw
    rcases hw with hw | hw
    · exact hended w hw
    · refine ih (r := r.read old) (fun place hplace => hclean place (List.mem_cons_of_mem _ hplace)) ?_ ?_ ?_ w ?_
      · exact fun hback => getLast?_of_read_eq_backslash hold hback
      · exact fun w hw => hwords w (by rw [words_append]; exact List.mem_append_right _ hw)
      · rwa [read_append]
      · rwa [read_append]

/-- The control words of a source after a fitting substitution are allowed, if those before it are. -/
theorem controlWords_substitute {clean : Text → Text → Prop} (hfits : Fits A rule clean) (hadvances : rule.Advances)
    (hclean : ∀ place ∈ s.applications rule, clean place.1 place.2) (h : ∀ w ∈ controlWords s, A w) :
    ∀ w ∈ controlWords (s.substitute rule), A w := by
  rw [controlWords_eq] at h ⊢
  exact words_of_rewriting hfits (Text.rewriting_substitute hadvances s) hclean (by simp) h (.same _)

/-! ### The front and the rear of a source -/

/-- What is read in front of a token is read if the text goes on with that token. -/
theorem words_subset_append (h : StartsToken t) (r : Reached) : r.words s ⊆ r.words (s ++ t) := by
  rw [words_append, words]
  exact List.append_subset.2 ⟨List.subset_append_left _ _, fun w hw =>
    List.mem_append_right _ (pending_subset_words h hw)⟩

/-- The control words of the front of a source, if another token starts behind it. -/
theorem controlWords_append_left (h : StartsToken t) : controlWords s ⊆ controlWords (s ++ t) := by
  rw [controlWords_eq, controlWords_eq]
  exact words_subset_append h token

/-- The control words of the rear of a source, behind whole tokens. -/
theorem controlWords_append_right (h : token.read s = token) : controlWords t ⊆ controlWords (s ++ t) := by
  rw [controlWords_eq, controlWords_eq, words_append, h]
  exact List.subset_append_right _ _

/-- Trimming takes no control words in. -/
theorem controlWords_trim (s : Text) : controlWords s.trim ⊆ controlWords s := by
  have hstart : controlWords s.trimStart ⊆ controlWords s := by
    have hspaces : token.read (s.takeWhile (·.isSpace)) = token := by
      refine (read_token_of_not_mem fun hmem => ?_).1
      exact absurd (List.mem_takeWhile_imp hmem) (by decide)
    have h := controlWords_append_right (t := s.trimStart) hspaces
    rwa [Text.trimStart, List.takeWhile_append_dropWhile] at h
  have hend : controlWords s.trimStart.trimEnd ⊆ controlWords s.trimStart := by
    have hsplit : s.trimStart.trimEnd ++ (s.trimStart.reverse.takeWhile (·.isSpace)).reverse = s.trimStart := by
      rw [Text.trimEnd, ← List.reverse_append, List.takeWhile_append_dropWhile, List.reverse_reverse]
    have h := controlWords_append_left (s := s.trimStart.trimEnd)
      (t := (s.trimStart.reverse.takeWhile (·.isSpace)).reverse) ?_
    · rwa [hsplit] at h
    · intro c hc
      have hmem : c ∈ s.trimStart.reverse.takeWhile (·.isSpace) := List.mem_reverse.1 (List.mem_of_mem_head? hc)
      exact (isQuiet_iff.1 (isQuiet_of_isSpace (List.mem_takeWhile_imp hmem))).1
  exact List.Subset.trans hend hstart

end EquationExport.Latex
