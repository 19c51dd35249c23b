import EquationExport.Omml.Repair.Delimiter
import EquationExport.Proofs.Omml.Matching
import EquationExport.Proofs.Omml.Property

/-!
# The spans that rules find

For each rule that looks for a span among neighbours: what the objects of the span are and what is built from
them. The rules count the objects in front as they go along; `Covers` says what the count means.
-/

namespace EquationExport.Omml.Repair

open Xml

/-! ### Where a span stands -/

/-- A shape of spans: the objects, and what is built in their place. -/
abbrev Shape := List Node → (List Node → Node) → Prop

/-- The span stands among the objects of `seen`, has the given shape, and counts from `i` on. -/
def Span.Covers (span : Span) (i : Nat) (seen : List Node) (shape : Shape) : Prop :=
  ∃ front old rest, seen = front ++ (old ++ rest) ∧ span.start = i + front.length ∧
    span.stop = i + front.length + old.length ∧ shape old span.build

namespace Span.Covers

variable {span : Span} {i : Nat} {seen : List Node} {shape : Shape}

theorem cons (node : Node) (h : span.Covers (i + 1) seen shape) : span.Covers i (node :: seen) shape := by
  obtain ⟨front, old, rest, rfl, hstart, hstop, hshape⟩ := h
  refine ⟨node :: front, old, rest, rfl, ?_, ?_, hshape⟩
  · rw [hstart, List.length_cons]; omega
  · rw [hstop, List.length_cons]; omega

theorem mono {shape' : Shape} (h : span.Covers i seen shape) (hshape : ∀ old build, shape old build → shape' old build) :
    span.Covers i seen shape' := by
  obtain ⟨front, old, rest, hseen, hstart, hstop, hold⟩ := h
  exact ⟨front, old, rest, hseen, hstart, hstop, hshape old span.build hold⟩

/-- A span whose objects are the first ones. -/
theorem first (old rest : List Node) (hseen : seen = old ++ rest) (hstart : span.start = i)
    (hstop : span.stop = i + old.length) (hshape : shape old span.build) : span.Covers i seen shape :=
  ⟨[], old, rest, hseen, by simpa using hstart, by simpa using hstop, hshape⟩

end Span.Covers

/-! ### Integral signs -/

/-- A limit is a run of its own with the text of the object that it is made from. -/
def limitOf (object : Node) : Node := plainRun object.glyphs

/-- No object, or one with a text. -/
def IsLimit (objects : List Node) : Prop := objects = [] ∨ ∃ node, objects = [node] ∧ node.glyphs ≠ []

/-- An integral sign with digits and infinity behind it, where either may be missing. -/
def IsIntegral : Shape := fun old build =>
  ∃ (sign : Node) (lower upper : List Node), old = sign :: (lower ++ upper) ∧
    isGlyphOf integralGlyphs sign.glyphs = true ∧ IsLimit lower ∧ IsLimit upper ∧
    build = fun _ => nary sign.glyphs (lower.map limitOf) (upper.map limitOf) [] (some underOver)

theorem exists_lowerLimit (objects : List Node) :
    ∃ lower rest, objects = lower ++ rest ∧ IsLimit lower ∧ lowerLimit objects = (lower.map limitOf, rest) := by
  cases objects with
  | nil => exact ⟨[], [], rfl, .inl rfl, rfl⟩
  | cons node rest =>
    by_cases h : (!node.glyphs.isEmpty && node.glyphs.all (·.isDigit)) = true
    · have hne : node.glyphs ≠ [] := by simpa using (Bool.and_eq_true_iff.1 h).1
      exact ⟨[node], rest, rfl, .inr ⟨node, rfl, hne⟩, by rw [lowerLimit, if_pos h]; rfl⟩
    · exact ⟨[], node :: rest, rfl, .inl rfl, by rw [lowerLimit, if_neg h]; rfl⟩

theorem exists_upperLimit (objects : List Node) :
    ∃ upper rest, objects = upper ++ rest ∧ IsLimit upper ∧ upperLimit objects = (upper.map limitOf, rest) := by
  cases objects with
  | nil => exact ⟨[], [], rfl, .inl rfl, rfl⟩
  | cons node rest =>
    by_cases h : node.glyphs = "∞"
    · refine ⟨[node], rest, rfl, .inr ⟨node, rfl, by rw [h]; decide⟩, ?_⟩
      rw [upperLimit, if_pos h, List.map_singleton, limitOf, h]
    · exact ⟨[], node :: rest, rfl, .inl rfl, by rw [upperLimit, if_neg h]; rfl⟩

theorem covers_of_integralSpan {i : Nat} {seen : List Node} {span : Span} (h : integralSpan i seen = some span) :
    span.Covers i seen IsIntegral := by
  induction seen generalizing i with
  | nil => simp [integralSpan] at h
  | cons node seen ih =>
    by_cases hsign : isGlyphOf integralGlyphs node.glyphs = true
    · obtain ⟨lower, seen', rfl, hlower, hlow⟩ := exists_lowerLimit seen
      obtain ⟨upper, rest, rfl, hupper, hup⟩ := exists_upperLimit seen'
      simp only [integralSpan, hsign, if_true, hlow, hup, Option.some.injEq] at h
      subst h
      refine .first (node :: (lower ++ upper)) rest (by simp) rfl ?_
        ⟨node, lower, upper, rfl, hsign, hlower, hupper, rfl⟩
      simp only [List.length_cons, List.length_append, List.length_map]
      omega
    · simp only [integralSpan, hsign] at h
      exact (ih h).cons node

/-! ### Square brackets -/

/-- Brackets that belong together, and what stands between them. -/
def IsBracketed : Shape := fun old build =>
  ∃ (opening : Node) (inner : List Node) (last : Node), old = opening :: (inner ++ [last]) ∧
    opening.glyphs = "[" ∧ last.glyphs = "]" ∧ build = fun objects => delimiter "[" "]" (interior objects)

/-- The end of a bracket is the bracket that matches, and a tall construct stands before it or was met already. -/
theorem bracketEnd?_eq_some_iff {d i stop : Nat} {tall found : Bool} {l : List Node} :
    bracketEnd? d tall i l = some (stop, found) ↔
      ∃ (inside : List Node) (last : Node) (rest : List Node), l = inside ++ last :: rest ∧ last.glyphs = "]" ∧
        levelAfter? "[" "]" d inside = some 0 ∧ stop = i + inside.length ∧ found = (tall || inside.any (·.isTall)) := by
  induction l generalizing d tall i with
  | nil => simp [bracketEnd?]
  | cons node l ih =>
    rw [exists_append_cons_iff]
    simp only [bracketEnd?, levelAfter?, List.length_cons, List.length_nil, List.any_cons, List.any_nil, Bool.or_false]
    have hne : ("[" : Text) ≠ "]" := by decide
    by_cases hopening : node.glyphs = "["
    · have hflat : node.isTall = false := isTall_of_glyphs (by rw [hopening]; decide)
      simp only [hopening, hne, hflat, ih, if_true, if_false, false_and, false_or, Bool.false_or, Nat.add_assoc, Nat.add_comm 1]
    · by_cases hclosing : node.glyphs = "]"
      · have hflat : node.isTall = false := isTall_of_glyphs (by rw [hclosing]; decide)
        cases d with
        | zero =>
          simp only [hclosing, hne.symm, if_true, if_false, Option.some.injEq, Prod.mk.injEq, true_and, reduceCtorEq,
            false_and, and_false, exists_const, or_false, Nat.add_zero]
          exact and_congr eq_comm eq_comm
        | succ d =>
          simp only [hclosing, hne.symm, hflat, ih, if_true, if_false, Option.some.injEq, Nat.succ_ne_zero, false_and,
            and_false, false_or, Bool.false_or, Nat.add_assoc, Nat.add_comm 1]
      · simp only [hopening, hclosing, ih, if_false, false_and, false_or, Bool.or_assoc, Nat.add_assoc, Nat.add_comm 1]

/-- Brackets that belong together, with a tall construct between them. -/
def IsEnclosing : Shape := fun old build =>
  ∃ (first : Node) (inside : List Node) (last : Node), old = first :: (inside ++ [last]) ∧ first.glyphs = "[" ∧
    Balanced "[" "]" inside ∧ last.glyphs = "]" ∧ inside.any (·.isTall) = true ∧
    build = fun objects => delimiter "[" "]" (interior objects)

theorem IsEnclosing.isBracketed {old : List Node} {build : List Node → Node} (h : IsEnclosing old build) :
    IsBracketed old build := by
  obtain ⟨first, inside, last, hold, hfirst, -, hlast, -, hbuild⟩ := h
  exact ⟨first, inside, last, hold, hfirst, hlast, hbuild⟩

theorem covers_isEnclosing {i : Nat} {seen : List Node} {span : Span} (h : bracketSpan i seen = some span) :
    span.Covers i seen IsEnclosing := by
  induction seen generalizing i with
  | nil => simp [bracketSpan] at h
  | cons node seen ih =>
    simp only [bracketSpan] at h
    split at h
    · next hopening =>
      split at h
      · next stop hend =>
        obtain ⟨inside, last, rest, rfl, hlast, hbalanced, rfl, htall⟩ := bracketEnd?_eq_some_iff.1 hend
        simp only [Option.some.injEq] at h
        subst h
        refine .first (node :: (inside ++ [last])) rest (by simp) rfl ?_
          ⟨node, inside, last, rfl, hopening, hbalanced, hlast, by simpa using htall.symm, rfl⟩
        simp only [List.length_cons, List.length_append, List.length_nil]
        omega
      · exact (ih h).cons node
    · exact (ih h).cons node

theorem covers_of_bracketSpan {i : Nat} {seen : List Node} {span : Span} (h : bracketSpan i seen = some span) :
    span.Covers i seen IsBracketed := (covers_isEnclosing h).mono fun _ _ => IsEnclosing.isBracketed

/-! ### Braces before matrices -/

/-- A brace, a matrix, and a closing brace that may be missing. -/
def IsBraced : Shape := fun old build =>
  (∃ brace matrix last : Node, old = [brace, matrix, last] ∧ brace.glyphs = "\x7b" ∧ last.glyphs = "\x7d" ∧
    build = fun objects => delimiter "\x7b" "\x7d" (interior objects)) ∨
  ∃ brace matrix : Node, old = [brace, matrix] ∧ brace.glyphs = "\x7b" ∧
    build = fun objects => delimiter "\x7b" "" (objects.drop 1)

theorem covers_of_braceSpan {i : Nat} {seen : List Node} {span : Span} (h : braceSpan i seen = some span) :
    span.Covers i seen IsBraced := by
  induction seen generalizing i with
  | nil => simp [braceSpan] at h
  | cons brace seen ih =>
    cases seen with
    | nil => simp [braceSpan] at h
    | cons matrix rest =>
      simp only [braceSpan] at h
      split at h
      · next hshape =>
        have hbrace : brace.glyphs = "\x7b" := by simpa using (Bool.and_eq_true_iff.1 hshape).1
        split at h
        · next hlast =>
          simp only [Option.some.injEq] at h
          subst h
          cases rest with
          | nil => simp at hlast
          | cons last rest =>
            exact .first [brace, matrix, last] rest rfl rfl rfl
              (.inl ⟨brace, matrix, last, rfl, hbrace, by simpa using hlast, rfl⟩)
        · simp only [Option.some.injEq] at h
          subst h
          exact .first [brace, matrix] rest rfl rfl rfl (.inr ⟨brace, matrix, rfl, hbrace, rfl⟩)
      · exact (ih h).cons brace

/-! ### Flattened fractions -/

/-- The objects of a flattened fraction: which they are, and what tells them. -/
structure Flattened (opening integral text : Node) (plus : List Node) (sum last : Node) (close : Text) : Prop where
  pair : closing? opening.glyphs = some close
  isIntegral : isNaryOf integralGlyphs integral = true
  isText : text.isRun = true
  isPlus : plus = [] ∨ ∃ one, plus = [one] ∧ isOnePlus one = true
  isSum : isNaryOf sumGlyphs sum = true
  isRun : last.isRun = true
  closes : last.glyphs = close

/-- A flattened fraction: delimiters around an integral, a run, a one with a plus that may be missing, a sum. -/
def IsFlattened : Shape := fun old build =>
  ∃ (opening integral text : Node) (plus : List Node) (sum last : Node) (close : Text),
    old = opening :: integral :: text :: (plus ++ [sum, last]) ∧
    Flattened opening integral text plus sum last close ∧ build = bracketedFraction opening.glyphs close

theorem exists_of_denominatorLength? {close : Text} {objects : List Node} {n : Nat}
    (h : denominatorLength? close objects = some n) :
    ∃ (plus : List Node) (sum last : Node) (rest : List Node), objects = plus ++ sum :: last :: rest ∧
      n = plus.length + 1 ∧ (plus = [] ∨ ∃ one, plus = [one] ∧ isOnePlus one = true) ∧
      isNaryOf sumGlyphs sum = true ∧ last.glyphs = close ∧ last.isRun = true := by
  unfold denominatorLength? at h
  split at h
  · next first rest =>
    split at h
    · next hplus =>
      split at h
      · next sum last rest =>
        split at h
        · next hshape =>
          simp only [Bool.and_eq_true, beq_iff_eq] at hshape
          simp only [Option.some.injEq] at h
          exact ⟨[first], sum, last, rest, rfl, h.symm, .inr ⟨first, rfl, hplus⟩, hshape.1.1, hshape.1.2, hshape.2⟩
        · cases h
      · cases h
    · split at h
      · next last rest =>
        split at h
        · next hshape =>
          simp only [Bool.and_eq_true, beq_iff_eq] at hshape
          simp only [Option.some.injEq] at h
          exact ⟨[], first, last, rest, rfl, h.symm, .inl rfl, hshape.1.1, hshape.1.2, hshape.2⟩
        · cases h
      · cases h
  · cases h

theorem covers_of_fractionSpan {i : Nat} {seen : List Node} {span : Span} (h : fractionSpan i seen = some span) :
    span.Covers i seen IsFlattened := by
  induction seen generalizing i with
  | nil => simp [fractionSpan] at h
  | cons opening seen ih =>
    simp only [fractionSpan] at h
    split at h
    · next found hfound =>
      obtain rfl : found = span := by simpa using h
      split at hfound
      · next close integral text rest hpair =>
        split at hfound
        · next hshape =>
          obtain ⟨hintegral, htext⟩ := Bool.and_eq_true_iff.1 hshape
          obtain ⟨n, hn, rfl⟩ := Option.map_eq_some_iff.1 hfound
          obtain ⟨plus, sum, last, rest, rfl, rfl, hplus, hsum, hcloses, hrun⟩ := exists_of_denominatorLength? hn
          refine .first (opening :: integral :: text :: (plus ++ [sum, last])) rest (by simp) rfl ?_
            ⟨opening, integral, text, plus, sum, last, close, rfl,
              ⟨hpair, hintegral, htext, hplus, hsum, hrun, hcloses⟩, rfl⟩
          simp only [List.length_cons, List.length_append, List.length_nil]
          omega
        · cases hfound
      · cases hfound
    · exact (ih h).cons opening

/-! ### Delimiters around one tall construct -/

/-- One object between delimiters that are a pair. -/
def IsPromoted : Shape := fun old build =>
  ∃ (opening tall last : Node) (close : Text), old = [opening, tall, last] ∧
    closing? opening.glyphs = some close ∧ last.glyphs = close ∧
    build = fun objects => delimiter opening.glyphs close (interior objects)

/-- One tall object between delimiters that are a pair. -/
def IsStretched : Shape := fun old build =>
  ∃ (opening tall last : Node) (close : Text), old = [opening, tall, last] ∧ closing? opening.glyphs = some close ∧
    tall.isTall = true ∧ last.glyphs = close ∧ build = fun objects => delimiter opening.glyphs close (interior objects)

theorem covers_isStretched {i : Nat} {seen : List Node} {span : Span} (h : promotionSpan i seen = some span) :
    span.Covers i seen IsStretched := by
  induction seen generalizing i with
  | nil => simp [promotionSpan] at h
  | cons opening seen ih =>
    cases seen with
    | nil => simp [promotionSpan] at h
    | cons tall seen =>
      cases seen with
      | nil => simp [promotionSpan] at h
      | cons last rest =>
        simp only [promotionSpan] at h
        split at h
        · next close hpair =>
          split at h
          · next hshape =>
            simp only [Bool.and_eq_true, beq_iff_eq] at hshape
            simp only [Option.some.injEq] at h
            subst h
            exact .first [opening, tall, last] rest rfl rfl rfl
              ⟨opening, tall, last, close, rfl, hpair, hshape.1.1, hshape.2, rfl⟩
          · exact (ih h).cons opening
        · exact (ih h).cons opening

theorem covers_of_promotionSpan {i : Nat} {seen : List Node} {span : Span} (h : promotionSpan i seen = some span) :
    span.Covers i seen IsPromoted := by
  refine (covers_isStretched h).mono ?_
  rintro old build ⟨opening, tall, last, close, hold, hpair, -, hlast, hbuild⟩
  exact ⟨opening, tall, last, close, hold, hpair, hlast, hbuild⟩

end EquationExport.Omml.Repair
