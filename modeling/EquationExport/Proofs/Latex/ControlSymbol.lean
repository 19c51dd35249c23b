import EquationExport.Proofs.Latex.Alongside

/-!
# The control symbols of a source

A control symbol is read where a character that is no letter follows a lone backslash. Which control symbols a source
has is therefore settled by the places at which a reader stands behind a lone backslash: two readers that are in step
there read the same ones. Row separators, two backslashes, are the control symbols that a rewrite can lose or bring in,
since a backslash more or less in front of them shifts all that follow.
-/

namespace EquationExport.Latex

/-- The character of a control symbol. -/
def Token.symbol? : Token → Option CodePoint
  | symbol c => some c
  | _ => none

/-- The characters of the control symbols of a source, in order. -/
def controlSymbols (s : Text) : List CodePoint := (tokens s).filterMap (·.symbol?)

namespace Reached

variable {r r' : Reached} {c : CodePoint} {s t : Text}

/-- The control symbol that one code point more ends. -/
def symbol (r : Reached) (c : CodePoint) : List CodePoint := if r = backslash ∧ c.isAsciiLetter = false then [c] else []

/-- The control symbols that end while a text is read. -/
def symbols : Reached → Text → List CodePoint
  | _, [] => []
  | r, c :: s => r.symbol c ++ (r.next c).symbols s

@[simp] theorem symbols_nil (r : Reached) : r.symbols [] = [] := rfl

@[simp] theorem symbols_cons (r : Reached) (c : CodePoint) (s : Text) :
    r.symbols (c :: s) = r.symbol c ++ (r.next c).symbols s := rfl

@[simp] theorem symbols_append (r : Reached) (s t : Text) : r.symbols (s ++ t) = r.symbols s ++ (r.read s).symbols t := by
  induction s generalizing r with
  | nil => rfl
  | cons c s ih => simp [ih]

theorem symbol_of_ne (h : r ≠ backslash) (c : CodePoint) : r.symbol c = [] := if_neg fun hboth => h hboth.1

theorem symbol_of_isAsciiLetter (h : c.isAsciiLetter = true) (r : Reached) : r.symbol c = [] :=
  if_neg fun hboth => by simp [h] at hboth

theorem symbol_backslash (h : c.isAsciiLetter = false) : backslash.symbol c = [c] := if_pos ⟨rfl, h⟩

theorem mem_symbol {d : CodePoint} (h : d ∈ r.symbol c) : d = c ∧ r = backslash ∧ c.isAsciiLetter = false := by
  unfold symbol at h
  split at h
  · next hboth => exact ⟨List.mem_singleton.1 h, hboth⟩
  · cases h

theorem mem_symbol_iff {d : CodePoint} (h : c.isAsciiLetter = false) : c ∈ r.symbol d ↔ r = backslash ∧ d = c := by
  constructor
  · intro hmem
    obtain ⟨rfl, hr, -⟩ := mem_symbol hmem
    exact ⟨hr, rfl⟩
  · rintro ⟨rfl, rfl⟩
    rw [symbol_backslash h]
    exact List.mem_singleton_self _

/-- A reader comes to stand behind a lone backslash where it reads one that no other is in front of. -/
theorem next_eq_backslash_iff : r.next c = backslash ↔ r ≠ backslash ∧ c = '\\' := by
  have hletter : c.isAsciiLetter = true → c ≠ '\\' := by
    rintro h rfl
    exact absurd h (by decide)
  cases r with
  | token => by_cases hc : c = '\\' <;> simp [next, hc]
  | backslash => cases h : c.isAsciiLetter <;> simp [next, h]
  | letters word =>
    cases h : c.isAsciiLetter with
    | true => simp [next, h, hletter h]
    | false =>
      simp only [next, h]
      by_cases hc : c = '\\' <;> simp [hc]

/-- What ends a control symbol is a character of the text. -/
theorem symbols_subset (r : Reached) (s : Text) : r.symbols s ⊆ s := by
  induction s generalizing r with
  | nil => exact List.Subset.refl []
  | cons c s ih =>
    intro d hd
    rcases List.mem_append.1 hd with hd | hd
    · exact List.mem_cons.2 (.inl (mem_symbol hd).1)
    · exact List.mem_cons_of_mem c (ih _ hd)

/-! ### Readers in step -/

/-- Both readers stand behind a lone backslash, or neither does. -/
def InStep (r r' : Reached) : Prop := r = backslash ↔ r' = backslash

theorem InStep.next (h : InStep r r') (c : CodePoint) : InStep (r.next c) (r'.next c) := by
  rw [InStep, next_eq_backslash_iff, next_eq_backslash_iff]
  exact and_congr_left fun _ => not_congr h

theorem InStep.symbol_eq (h : InStep r r') (c : CodePoint) : r.symbol c = r'.symbol c :=
  if_congr (and_congr_left fun _ => h) rfl rfl

/-- Readers in step read the same control symbols. -/
theorem InStep.symbols_eq (h : InStep r r') (s : Text) : r.symbols s = r'.symbols s := by
  induction s generalizing r r' with
  | nil => rfl
  | cons c s ih => rw [symbols_cons, symbols_cons, h.symbol_eq, ih (h.next c)]

/-- Where no backslash stands, a reader that is behind none stays behind none. -/
theorem symbols_of_not_mem (hr : r ≠ backslash) (h : ('\\' : CodePoint) ∉ s) : r.symbols s = [] ∧ r.read s ≠ backslash := by
  induction s generalizing r with
  | nil => exact ⟨rfl, hr⟩
  | cons c s ih =>
    rw [List.mem_cons, not_or] at h
    have hnext : r.next c ≠ backslash := fun hback => h.1 (next_eq_backslash_iff.1 hback).2.symm
    obtain ⟨hsymbols, hread⟩ := ih hnext h.2
    exact ⟨by rw [symbols_cons, symbol_of_ne hr, hsymbols, List.append_nil], hread⟩

/-- In front of a text without backslashes no control symbol is missed. -/
theorem symbols_append_of_not_mem (hr : r ≠ backslash) (h : ('\\' : CodePoint) ∉ s) (t : Text) :
    r.symbols (s ++ t) = token.symbols t := by
  obtain ⟨hsymbols, hread⟩ := symbols_of_not_mem hr h
  rw [symbols_append, hsymbols, List.nil_append]
  exact InStep.symbols_eq (iff_of_false hread (by simp)) t

end Reached

open Reached

variable {s : Text} {c : CodePoint}

theorem not_mem_takeWhile_letter (s : Text) : ('\\' : CodePoint) ∉ s.takeWhile (·.isAsciiLetter) :=
  fun hmem => absurd (List.mem_takeWhile_imp hmem) (by decide)

/-- The machine reads the control symbols of a source. -/
theorem controlSymbols_eq (s : Text) : controlSymbols s = token.symbols s := by
  unfold controlSymbols
  have hslash : token.next '\\' = backslash := next_eq_backslash_iff.2 ⟨by simp, rfl⟩
  have htoken : ∀ c, token.symbol c = [] := symbol_of_ne (by simp)
  fun_induction tokens s with
  | case1 => rfl
  | case2 c => rw [symbols_cons, htoken]; rfl
  | case3 d s hd ih =>
    have hword : (letters [d]).symbols s = token.symbols (s.dropWhile (·.isAsciiLetter)) := by
      have h := symbols_append_of_not_mem (r := letters [d]) (by simp) (not_mem_takeWhile_letter s) (s.dropWhile (·.isAsciiLetter))
      rwa [List.takeWhile_append_dropWhile] at h
    have hletter : backslash.next d = letters [d] := by simp [next, hd]
    rw [List.filterMap_cons_none rfl, ih, symbols_cons, htoken, hslash, symbols_cons, symbol_of_isAsciiLetter hd, hletter, hword]
    rfl
  | case4 d s hd ih =>
    have hd : d.isAsciiLetter = false := by simpa using hd
    have hsymbol : backslash.next d = token := by simp [next, hd]
    have hsome : (Token.symbol d).symbol? = some d := rfl
    rw [List.filterMap_cons_some hsome, ih, symbols_cons, htoken, hslash, symbols_cons, symbol_backslash hd, hsymbol]
    rfl
  | case5 c d s hc ih =>
    have hnext : token.next c = token := by simp [next, hc]
    rw [List.filterMap_cons_none rfl, ih, symbols_cons token c, htoken, hnext]
    rfl

/-! ### Row separators -/

/-- How many row separators a source has. -/
def rowSeparators (s : Text) : Nat := (controlSymbols s).count ('\\' : CodePoint)

theorem not_mem_of_isSpace (h : ∀ c ∈ s, c.isSpace = true) : ('\\' : CodePoint) ∉ s :=
  fun hmem => absurd (h _ hmem) (by decide)

theorem controlSymbols_trimStart (s : Text) : controlSymbols s.trimStart = controlSymbols s := by
  have hspaces : ('\\' : CodePoint) ∉ s.takeWhile (·.isSpace) := not_mem_of_isSpace fun c hc => List.mem_takeWhile_imp hc
  have h := symbols_append_of_not_mem (r := token) (by simp) hspaces s.trimStart
  rw [Text.trimStart, List.takeWhile_append_dropWhile] at h
  rw [controlSymbols_eq, controlSymbols_eq, h, Text.trimStart]

/-- White space at the end ends no control symbol but a space. -/
theorem exists_controlSymbols_trimEnd (s : Text) :
    ∃ spaces, controlSymbols s = controlSymbols s.trimEnd ++ spaces ∧ ∀ c ∈ spaces, c.isSpace = true := by
  have hsplit : s.trimEnd ++ (s.reverse.takeWhile (·.isSpace)).reverse = s := by
    rw [Text.trimEnd, ← List.reverse_append, List.takeWhile_append_dropWhile, List.reverse_reverse]
  refine ⟨(token.read s.trimEnd).symbols (s.reverse.takeWhile (·.isSpace)).reverse, ?_, fun c hc => ?_⟩
  · rw [controlSymbols_eq, controlSymbols_eq, ← symbols_append, hsplit]
  · exact List.mem_takeWhile_imp (List.mem_reverse.1 (symbols_subset _ _ hc))

/-- Trimming keeps the control symbols that are no spaces. -/
theorem mem_controlSymbols_trim (hc : c.isSpace = false) (s : Text) : c ∈ controlSymbols s.trim ↔ c ∈ controlSymbols s := by
  obtain ⟨spaces, hsymbols, hspaces⟩ := exists_controlSymbols_trimEnd s.trimStart
  have hnot : c ∉ spaces := fun hmem => by simp [hspaces c hmem] at hc
  rw [← controlSymbols_trimStart s, hsymbols, List.mem_append, or_iff_left hnot, Text.trim]

/-- Trimming keeps the row separators. -/
theorem rowSeparators_trim (s : Text) : rowSeparators s.trim = rowSeparators s := by
  obtain ⟨spaces, hsymbols, hspaces⟩ := exists_controlSymbols_trimEnd s.trimStart
  rw [rowSeparators, rowSeparators, ← controlSymbols_trimStart s, hsymbols, List.count_append,
    List.count_eq_zero.2 (not_mem_of_isSpace hspaces)]
  rfl

end EquationExport.Latex
