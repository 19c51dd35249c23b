import EquationExport.Latex.Command

/-!
# The control words of a source

A source is read from left to right into tokens: control words, control symbols and single characters. To see
what a rewrite does to the tokens, the reader is also told as a machine that takes one code point at a time, so
that what it has read in front of a place and what it reads behind it can be looked at apart.
-/

namespace EquationExport.Latex

/-! ### Tokens -/

/-- A token of a source. -/
inductive Token where
  /-- A backslash with a run of letters. -/
  | word (letters : Text)
  /-- A backslash with one other character. -/
  | symbol (c : CodePoint)
  /-- A character on its own. -/
  | point (c : CodePoint)
  deriving DecidableEq

/-- The letters of a control word. -/
def Token.letters? : Token → Option Text
  | word letters => some letters
  | _ => none

/-- The tokens of a source. -/
def tokens : Text → List Token
  | [] => []
  | [c] => [.point c]
  | c :: d :: s =>
    if c = '\\' then
      if d.isAsciiLetter then
        .word (d :: s.takeWhile (·.isAsciiLetter)) :: tokens (s.dropWhile (·.isAsciiLetter))
      else .symbol d :: tokens s
    else .point c :: tokens (d :: s)
termination_by s => s.length
decreasing_by
  · have := (List.dropWhile_sublist (l := s) (·.isAsciiLetter)).length_le
    simp only [List.length_cons]
    omega
  · simp only [List.length_cons]
    omega
  · simp only [List.length_cons]
    omega

/-- The letters of the control words of a source, in order. -/
def controlWords (s : Text) : List Text := (tokens s).filterMap (·.letters?)

/-! ### Reading code point by code point -/

/-- What a reader stands behind. -/
inductive Reached where
  /-- A whole token. -/
  | token
  /-- A backslash that starts a token. -/
  | backslash
  /-- The first letters of a control word. -/
  | letters (word : Text)
  deriving DecidableEq

namespace Reached

/-- The control word that ends if no letter follows. -/
def pending : Reached → List Text
  | letters word => [word]
  | _ => []

/-- One code point more. -/
def next (r : Reached) (c : CodePoint) : Reached :=
  match r, c.isAsciiLetter with
  | token, _ => if c = '\\' then backslash else token
  | backslash, true => letters [c]
  | backslash, false => token
  | letters word, true => letters (word ++ [c])
  | letters _, false => if c = '\\' then backslash else token

/-- The control word that one code point more ends. -/
def ended (r : Reached) (c : CodePoint) : List Text := if c.isAsciiLetter then [] else r.pending

/-- What the reader stands behind when it has read a text. -/
def read (r : Reached) (s : Text) : Reached := s.foldl next r

/-- The control words that end while a text is read. -/
def endedIn : Reached → Text → List Text
  | _, [] => []
  | r, c :: s => r.ended c ++ endedIn (r.next c) s

/-- The control words that end while a text is read to its end. -/
def words (r : Reached) (s : Text) : List Text := r.endedIn s ++ (r.read s).pending

variable {r : Reached} {c : CodePoint} {s t : Text}

@[simp] theorem read_nil (r : Reached) : r.read [] = r := rfl

@[simp] theorem read_cons (r : Reached) (c : CodePoint) (s : Text) : r.read (c :: s) = (r.next c).read s := rfl

@[simp] theorem read_append (r : Reached) (s t : Text) : r.read (s ++ t) = (r.read s).read t := List.foldl_append

@[simp] theorem endedIn_nil (r : Reached) : r.endedIn [] = [] := rfl

@[simp] theorem endedIn_cons (r : Reached) (c : CodePoint) (s : Text) :
    r.endedIn (c :: s) = r.ended c ++ (r.next c).endedIn s := rfl

@[simp] theorem endedIn_append (r : Reached) (s t : Text) :
    r.endedIn (s ++ t) = r.endedIn s ++ (r.read s).endedIn t := by
  induction s generalizing r with
  | nil => rfl
  | cons c s ih => simp [ih]

@[simp] theorem words_nil (r : Reached) : r.words [] = r.pending := rfl

theorem words_cons (r : Reached) (c : CodePoint) (s : Text) : r.words (c :: s) = r.ended c ++ (r.next c).words s := by
  simp [words]

theorem words_append (r : Reached) (s t : Text) : r.words (s ++ t) = r.endedIn s ++ (r.read s).words t := by
  simp [words]

/-- A reader stands behind a lone backslash only if that is what it has read last. -/
theorem getLast?_of_read_eq_backslash (hs : s ≠ []) (h : r.read s = backslash) : s.getLast? = some '\\' := by
  obtain ⟨front, c, rfl⟩ : ∃ front c, s = front ++ [c] := ⟨s.dropLast, s.getLast hs, (List.dropLast_concat_getLast hs).symm⟩
  rw [read_append, read_cons, read_nil] at h
  have hc : c = '\\' := by
    unfold next at h
    split at h <;> first | cases h | (split at h <;> first | assumption | cases h)
  simp [hc]

/-- The word that a reader is in ends if no letter follows. -/
theorem pending_subset_words (h : ∀ c ∈ s.head?, c.isAsciiLetter = false) : r.pending ⊆ r.words s := by
  cases s with
  | nil => exact fun w hw => hw
  | cons c s =>
    rw [words_cons, ended, h c rfl]
    exact List.subset_append_left _ _

/-! ### Texts of a kind -/

/-- Neither a letter nor a backslash. -/
def isQuiet (c : CodePoint) : Bool := !c.isAsciiLetter && c != '\\'

theorem isQuiet_iff : isQuiet c = true ↔ c.isAsciiLetter = false ∧ c ≠ '\\' := by simp [isQuiet]

theorem isQuiet_of_isSpace (h : c.isSpace = true) : isQuiet c = true := by
  rw [isQuiet_iff]
  constructor
  · simp only [CodePoint.isSpace, CodePoint.inRange, Bool.or_eq_true, Bool.and_eq_true, decide_eq_true_eq,
      beq_iff_eq] at h
    simp only [CodePoint.isAsciiLetter, CodePoint.inRange, Bool.or_eq_false_iff, Bool.and_eq_false_iff,
      decide_eq_false_iff_not]
    omega
  · rintro rfl
    exact absurd h (by decide)

/-- Behind a quiet character a token ends. -/
theorem next_of_isQuiet (h : isQuiet c = true) (r : Reached) : r.next c = token := by
  obtain ⟨hletter, hc⟩ := isQuiet_iff.1 h
  cases r <;> simp [next, hletter, hc]

theorem read_concat_of_isQuiet (h : isQuiet c = true) (r : Reached) (s : Text) : r.read (s ++ [c]) = token := by
  rw [read_append, read_cons, read_nil, next_of_isQuiet h]

/-- Between tokens, characters without a backslash are tokens on their own. -/
theorem read_token_of_not_mem (h : ('\\' : CodePoint) ∉ s) : token.read s = token ∧ token.endedIn s = [] := by
  induction s with
  | nil => exact ⟨rfl, rfl⟩
  | cons c s ih =>
    rw [List.mem_cons, not_or] at h
    have hnext : token.next c = token := by simp [next, Ne.symm h.1]
    simp only [read_cons, endedIn_cons, hnext, ih h.2]
    simp [ended, pending]

/-- The letters of a control word, behind its backslash. -/
theorem read_backslash_of_letters (hs : s ≠ []) (h : ∀ c ∈ s, c.isAsciiLetter = true) :
    backslash.read s = letters s ∧ backslash.endedIn s = [] := by
  have hinside : ∀ (word s : Text), (∀ c ∈ s, c.isAsciiLetter = true) →
      (letters word).read s = letters (word ++ s) ∧ (letters word).endedIn s = [] := by
    intro word s hs
    induction s generalizing word with
    | nil => simp
    | cons c s ih =>
      have hc := hs c List.mem_cons_self
      obtain ⟨hread, hended⟩ := ih (word ++ [c]) fun d hd => hs d (List.mem_cons_of_mem _ hd)
      have hnext : (letters word).next c = letters (word ++ [c]) := by simp [next, hc]
      simp [hnext, hread, hended, ended, hc]
  cases s with
  | nil => exact absurd rfl hs
  | cons c s =>
    have hc := h c List.mem_cons_self
    have hnext : backslash.next c = letters [c] := by simp [next, hc]
    obtain ⟨hread, hended⟩ := hinside [c] s fun d hd => h d (List.mem_cons_of_mem _ hd)
    simp [hnext, hread, hended, ended, hc]

/-- A backslash ends a word and starts a token, unless it is the second of two. -/
theorem read_backslash_cons (h : r ≠ backslash) (s : Text) :
    r.read ('\\' :: s) = backslash.read s ∧ r.endedIn ('\\' :: s) = r.pending ++ backslash.endedIn s := by
  have hletter : ('\\' : CodePoint).isAsciiLetter = false := by decide
  cases r with
  | backslash => exact absurd rfl h
  | token | letters => simp [next, ended, pending, hletter]

/-- Behind a backslash that starts a token another one ends it. -/
theorem read_backslash_backslash (s : Text) :
    backslash.read ('\\' :: s) = token.read s ∧ backslash.endedIn ('\\' :: s) = token.endedIn s := by
  have hletter : ('\\' : CodePoint).isAsciiLetter = false := by decide
  simp [next, ended, pending, hletter]

end Reached

open Reached

/-- In a control word the reader takes all letters that follow. -/
theorem words_letters (word s : Text) : (letters word).words s =
    (word ++ s.takeWhile (·.isAsciiLetter)) :: token.words (s.dropWhile (·.isAsciiLetter)) := by
  induction s generalizing word with
  | nil => simp [words, pending]
  | cons c s ih =>
    rw [words_cons]
    by_cases hc : c.isAsciiLetter = true
    · simp [ended, next, hc, ih]
    · rw [Bool.not_eq_true] at hc
      rw [List.takeWhile_cons_of_neg (by simp [hc]), List.dropWhile_cons_of_neg (by simp [hc]), words_cons]
      simp [ended, next, hc, pending]

/-- The machine reads the control words of a source. -/
theorem controlWords_eq (s : Text) : controlWords s = token.words s := by
  unfold controlWords
  have hpoint : ∀ c : CodePoint, token.ended c = [] := fun c => by simp [ended, pending]
  fun_induction tokens s with
  | case1 => rfl
  | case2 c =>
    have hnone : (token.next c).pending = [] := by
      simp only [next]
      split <;> rfl
    rw [List.filterMap_cons_none rfl, List.filterMap_nil, words_cons, hpoint, words_nil, hnone, List.nil_append]
  | case3 d s hd ih =>
    have hslash : token.next '\\' = backslash := by simp [next]
    have hletters : backslash.next d = letters [d] := by simp [next, hd]
    have hword : (Token.word (d :: s.takeWhile (·.isAsciiLetter))).letters? =
        some (d :: s.takeWhile (·.isAsciiLetter)) := rfl
    rw [List.filterMap_cons_some hword, ih, words_cons, words_cons, hslash, hletters, words_letters]
    simp [ended, pending]
  | case4 d s hd ih =>
    have hslash : token.next '\\' = backslash := by simp [next]
    have hsymbol : backslash.next d = token := by simp [next, hd]
    rw [List.filterMap_cons_none rfl, ih, words_cons, words_cons, hslash, hsymbol]
    simp [ended, pending]
  | case5 c d s hc ih =>
    have hnext : token.next c = token := by simp [next, hc]
    rw [List.filterMap_cons_none rfl, ih, words_cons token c, hpoint, hnext, List.nil_append]

end EquationExport.Latex
