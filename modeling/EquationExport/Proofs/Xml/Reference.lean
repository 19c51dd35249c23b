import EquationExport.Proofs.Xml.Recogniser

/-!
# References by name and by number

What may stand between an ampersand and a semicolon: one of five names, or digits of ASCII in base ten or sixteen that
write the number of a legal character. A reader of references accepts these and no others.
-/

namespace EquationExport.Xml

open EquationExport.Text

variable {s body digits rest : Text} {c d : CodePoint}

/-- What stands between the ampersand and the semicolon of a reference, and the character it stands for. -/
inductive Spells : Text → CodePoint → Prop where
  | name {body : Text} {c : CodePoint} : (body, c) ∈ namedCharacters → Spells body c
  | decimal {digits : Text} {c : CodePoint} : characterOf? 10 asciiDigit? digits = some c → Spells (("#" : Text) ++ digits) c
  | hexadecimal {digits : Text} {c : CodePoint} : characterOf? 16 (·.hexDigit?) digits = some c →
    Spells (("#x" : Text) ++ digits) c

/-- A letter or digit of ASCII, or the sign in front of a number. -/
def isBodyPoint (c : CodePoint) : Bool := c == '#' || c.isAsciiLetter || c.isAsciiDigit

theorem isBodyPoint_of_asciiDigit? (h : (asciiDigit? c).isSome = true) : isBodyPoint c = true := by
  unfold asciiDigit? at h
  split at h
  · next hdigit => simp [isBodyPoint, hdigit]
  · cases h

theorem isBodyPoint_of_hexDigit? (h : c.hexDigit?.isSome = true) : isBodyPoint c = true := by
  unfold CodePoint.hexDigit? at h
  split at h
  · next hdigit => simp [isBodyPoint, hdigit]
  · have hletter : c.isAsciiLetter = true := by
      simp only [CodePoint.isAsciiLetter, CodePoint.inRange, Bool.or_eq_true, Bool.and_eq_true, decide_eq_true_eq]
      split at h
      · next hupper =>
        simp only [CodePoint.inRange, Bool.and_eq_true, decide_eq_true_eq] at hupper
        omega
      · split at h
        · next hlower =>
          simp only [CodePoint.inRange, Bool.and_eq_true, decide_eq_true_eq] at hlower
          omega
        · cases h
    simp [isBodyPoint, hletter]

theorem Spells.isBodyPoint (h : Spells body c) : ∀ d ∈ body, isBodyPoint d = true := by
  intro d hd
  cases h with
  | name hname =>
    have hall : ∀ named ∈ namedCharacters, named.1.all Xml.isBodyPoint = true := by decide
    exact List.all_eq_true.1 (hall _ hname) d hd
  | decimal hdigits =>
    rcases List.mem_append.1 hd with hd | hd
    · exact (show ("#" : Text).all Xml.isBodyPoint = true by decide) |> List.all_eq_true.1 |> (· d hd)
    · exact isBodyPoint_of_asciiDigit? (isSome_of_characterOf? hdigits d hd)
  | hexadecimal hdigits =>
    rcases List.mem_append.1 hd with hd | hd
    · exact (show ("#x" : Text).all Xml.isBodyPoint = true by decide) |> List.all_eq_true.1 |> (· d hd)
    · exact isBodyPoint_of_hexDigit? (isSome_of_characterOf? hdigits d hd)

theorem Spells.not_mem (h : Spells body c) (hd : Xml.isBodyPoint d = false) : d ∉ body := fun hmem => by
  rw [h.isBodyPoint d hmem] at hd
  cases hd

theorem dropPrefix?_number (h : CodePoint.ofChar 'x' ∉ digits) : dropPrefix? (("#" : Text) ++ digits) "#x" = none := by
  refine dropPrefix?_eq_none_iff.2 fun ⟨more, hmore⟩ => h ?_
  rw [show ("#x" : Text) = ("#" : Text) ++ ("x" : Text) from rfl, List.append_assoc] at hmore
  rw [← List.append_cancel_left hmore]
  exact List.mem_append_left _ (by decide)

theorem Spells.reference?_eq (h : Spells body c) (rest : Text) :
    reference? (body ++ CodePoint.ofChar ';' :: rest) = some (c, rest) := by
  rw [reference?, show (";" : Text) = [CodePoint.ofChar ';'] from rfl, breakOn?_of_not_mem (h.not_mem (by decide))]
  simp only [Option.map_eq_some_iff, Prod.mk.injEq, and_true, exists_eq_right]
  cases h with
  | name hname =>
    have hall : ∀ named ∈ namedCharacters, dropPrefix? named.1 "#x" = none ∧ dropPrefix? named.1 "#" = none ∧
        (namedCharacters.find? (·.1 == named.1)).map (·.2) = some named.2 := by decide
    obtain ⟨hx, hsign, hfind⟩ := hall _ hname
    simp only [hx, hsign, hfind]
  | @decimal digits c hdigits =>
    have hx := dropPrefix?_number fun hmem => absurd (isSome_of_characterOf? hdigits _ hmem) (by decide)
    simp only [hx, dropPrefix?_append, hdigits]
  | hexadecimal hdigits => simp only [dropPrefix?_append, hdigits]

/-- A reference is what it is spelled by and a semicolon. -/
theorem reference?_eq_some_iff :
    reference? s = some (c, rest) ↔ ∃ body, Spells body c ∧ s = body ++ CodePoint.ofChar ';' :: rest := by
  constructor
  · intro h
    unfold reference? at h
    split at h
    · cases h
    · next body behind hbreak =>
      obtain ⟨rfl, -⟩ := breakOn?_singleton_eq_some_iff.1 hbreak
      obtain ⟨d, hd, heq⟩ := Option.map_eq_some_iff.1 h
      obtain ⟨rfl, rfl⟩ := Prod.mk.inj heq
      refine ⟨body, ?_, rfl⟩
      split at hd
      · next digits hdigits =>
        rw [eq_append_of_dropPrefix? hdigits]
        exact .hexadecimal hd
      · split at hd
        · next digits hdigits =>
          rw [eq_append_of_dropPrefix? hdigits]
          exact .decimal hd
        · obtain ⟨named, hnamed, rfl⟩ := Option.map_eq_some_iff.1 hd
          have hname := List.find?_some hnamed
          rw [beq_iff_eq] at hname
          subst hname
          exact .name (List.mem_of_find?_eq_some hnamed)
  · rintro ⟨body, hbody, rfl⟩
    exact hbody.reference?_eq rest

end EquationExport.Xml
