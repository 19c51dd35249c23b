import EquationExport.Proofs.Xml.ReadBack

/-!
# What is read in an escaped text

Escaping puts references in the place of some characters and leaves all others as they are. References consist of few
characters, so what begins with another one, and holds no reference, is read in an escaped text only where it is
read in the text itself.
-/

namespace EquationExport.Xml

variable {t a r : Text} {c : CodePoint}

/-- The characters that references consist of. -/
def isReferencePoint (c : CodePoint) : Bool := c ∈ ("&#;0139aglmopqtu" : Text)

theorem isReferencePoint_of_isSpace (h : c.isSpace = true) : isReferencePoint c = false := by
  have hnone : ∀ d ∈ ("&#;0139aglmopqtu" : Text), d.isSpace = false := by decide
  refine decide_eq_false fun hmem => ?_
  rw [hnone c hmem] at h
  cases h

/-- Each code point is written as itself, or as a reference. -/
structure IsEscape (e : CodePoint → Text) : Prop where
  cases : ∀ c, e c = [c] ∨ ∃ body : Text, e c = ('&' : CodePoint) :: body ∧ body.all isReferencePoint = true

theorem isReferencePoint_reference : ∀ pair ∈ valueReferences, pair.2.all isReferencePoint = true := by decide

theorem isEscape_escapeTextPoint : IsEscape escapeTextPoint where
  cases c := by
    rcases escapeTextPoint_cases c with ⟨pair, hpair, -, heq⟩ | ⟨heq, -⟩
    · exact .inr ⟨pair.2, heq, isReferencePoint_reference pair hpair⟩
    · exact .inl heq

theorem isEscape_escapeValuePoint : IsEscape escapeValuePoint where
  cases c := by
    rcases escapeValuePoint_cases c with ⟨pair, hpair, -, heq⟩ | ⟨heq, -⟩
    · exact .inr ⟨pair.2, heq, isReferencePoint_reference pair hpair⟩
    · exact .inl heq

variable {e : CodePoint → Text}

/-- A front of an escaped text that holds no reference stands in front of the text itself. -/
theorem IsEscape.exists_of_front (he : IsEscape e) (h : t.flatMap e = a ++ r) (ha : ('&' : CodePoint) ∉ a) :
    ∃ t', t = a ++ t' ∧ r = t'.flatMap e := by
  induction a generalizing t with
  | nil => exact ⟨t, rfl, h.symm⟩
  | cons c a ih =>
    rw [List.mem_cons, not_or] at ha
    cases t with
    | nil => cases h
    | cons d t =>
      rw [List.flatMap_cons] at h
      rcases he.cases d with heq | ⟨body, heq, -⟩
      · rw [heq] at h
        obtain ⟨rfl, hrest⟩ := List.cons.inj h
        obtain ⟨t', rfl, hr⟩ := ih hrest ha.2
        exact ⟨t', rfl, hr⟩
      · rw [heq] at h
        exact absurd (List.cons.inj h).1 ha.1

/-- A rear of an escaped text that does not start inside a reference is what a rear of the text is escaped to. -/
theorem IsEscape.exists_of_rear {front : Text} (he : IsEscape e) (hc : isReferencePoint c = false)
    (h : t.flatMap e = front ++ c :: r) : ∃ f t', t = f ++ t' ∧ c :: r = t'.flatMap e := by
  induction t generalizing front with
  | nil => exact absurd h (by simp)
  | cons d t ih =>
    cases front with
    | nil => exact ⟨[], d :: t, rfl, h.symm⟩
    | cons x front =>
      have hlater : ∀ front', t.flatMap e = front' ++ c :: r → ∃ f t', d :: t = f ++ t' ∧ c :: r = t'.flatMap e := by
        intro front' hfront
        obtain ⟨f, t', rfl, hr⟩ := ih hfront
        exact ⟨d :: f, t', rfl, hr⟩
      rw [List.flatMap_cons] at h
      rcases he.cases d with heq | ⟨body, heq, hbody⟩
      · rw [heq] at h
        exact hlater front (List.cons.inj h).2
      · rw [heq] at h
        rcases List.append_eq_append_iff.1 (List.cons.inj h).2 with ⟨more, hmore, hrest⟩ | ⟨more, hmore, hrest⟩
        · exact hlater more hrest
        · -- the character would stand in the reference, or the reference ends in front of it
          cases more with
          | nil => exact ⟨[d], t, rfl, by simpa using hrest⟩
          | cons y more =>
            obtain ⟨rfl, -⟩ := List.cons.inj hrest
            have hy := List.all_eq_true.1 hbody c (by simp [hmore])
            rw [hc] at hy
            cases hy

/-- A part of an escaped text that neither starts inside a reference nor holds one is a part of the text itself. -/
theorem IsEscape.exists_of_isInfix {front : Text} (he : IsEscape e) (hc : isReferencePoint c = false)
    (ha : ('&' : CodePoint) ∉ c :: a) (h : t.flatMap e = front ++ (c :: a ++ r)) :
    ∃ f t', t = f ++ (c :: a ++ t') ∧ r = t'.flatMap e := by
  obtain ⟨f, t₁, rfl, hrear⟩ := he.exists_of_rear hc h
  obtain ⟨t', rfl, hr⟩ := he.exists_of_front hrear.symm ha
  exact ⟨f, t', rfl, hr⟩

end EquationExport.Xml
