import EquationExport.Omml.Fragment
import EquationExport.Proofs.Text.Passing
import EquationExport.Proofs.Xml.Escape
import EquationExport.Proofs.Xml.RoundTrip

/-!
# Taking the declarations away

Declarations of namespaces are taken out of a fragment when it is written, wherever the text reads like one. They
are all that is taken out, if no name holds white space, every declared qualifier is one word, and neither a text
nor a value reads like the front of a declaration. What is written then is what the tree without its declarations
is written as.
-/

namespace EquationExport.Omml

open Xml Xml.Node

/-! ### The front of a declaration -/

/-- What follows a colon and a word, if they are there. -/
def skipQualifier (s : Text) : Text :=
  match s.dropPrefix? ":" with
  | some q => if q.atWordEnd then s else q.dropWhile (·.isWord)
  | none => s

/-- What follows the front of a declaration: white space, the word for it, a qualifier, and the opening quote. -/
def opensDeclaration? (s : Text) : Option Text :=
  match s with
  | [] => none
  | c :: _ =>
    if c.isSpace then (s.trimStart.dropPrefix? "xmlns").bind fun r => Text.dropPrefix? (skipQualifier r) "=\"" else none

/-- Somewhere the text reads like the front of a declaration. -/
def announces (s : Text) : Bool := s.holds opensDeclaration?

/-- One word. -/
def isOneWord (s : Text) : Bool := !s.isEmpty && s.all (·.isWord)

/-- No white space. -/
def isUnspaced (s : Text) : Bool := s.all (!·.isSpace)

/-- A colon and a word, or nothing. -/
def IsQualifier (q : Text) : Prop := q = [] ∨ ∃ w, q = (":" : Text) ++ w ∧ isOneWord w = true

/-- The front of a declaration. -/
def IsOpening (a : Text) : Prop :=
  ∃ space qualifier : Text, a = space ++ ("xmlns" ++ (qualifier ++ "=\"")) ∧ space ≠ [] ∧
    (∀ c ∈ space, c.isSpace = true) ∧ IsQualifier qualifier

variable {s t a r q : Text} {c : CodePoint}

theorem skipDeclaration?_eq (s : Text) :
    skipDeclaration? s = (opensDeclaration? s).bind fun r => (r.breakOn? "\"").map (·.2) := by
  cases s with
  | nil => rfl
  | cons c s =>
    rw [skipDeclaration?, opensDeclaration?]
    split
    · cases h : Text.dropPrefix? (Text.trimStart (c :: s)) "xmlns" <;> rfl
    · rfl

theorem isWord_of_isOneWord (h : isOneWord q = true) : ∃ c rest, q = c :: rest ∧ ∀ d ∈ q, d.isWord = true := by
  obtain ⟨hne, hall⟩ := Bool.and_eq_true_iff.1 h
  cases q with
  | nil => cases hne
  | cons c rest => exact ⟨c, rest, rfl, List.all_eq_true.1 hall⟩

/-- A qualifier in front of the quote is skipped. -/
theorem skipQualifier_append (hq : IsQualifier q) (r : Text) : skipQualifier (q ++ ("=\"" ++ r)) = ("=\"" : Text) ++ r := by
  rcases hq with rfl | ⟨w, rfl, hw⟩
  · rfl
  · obtain ⟨d, rest, rfl, hword⟩ := isWord_of_isOneWord hw
    have hend : Text.atWordEnd ((d :: rest) ++ (("=\"" : Text) ++ r)) = false := by
      rw [List.cons_append, Text.atWordEnd, hword d List.mem_cons_self]
      rfl
    have hdrop : List.dropWhile (·.isWord) ((d :: rest) ++ (("=\"" : Text) ++ r)) = ("=\"" : Text) ++ r := by
      rw [List.dropWhile_append_of_pos hword]
      exact List.dropWhile_cons_of_neg (by decide)
    rw [skipQualifier, List.append_assoc, Text.dropPrefix?_append]
    dsimp only
    rw [hend, hdrop]
    rfl

/-- What is skipped in front of the quote is a qualifier. -/
theorem exists_qualifier (h : Text.dropPrefix? (skipQualifier s) "=\"" = some r) :
    ∃ q, IsQualifier q ∧ s = q ++ ("=\"" ++ r) := by
  have hnone : Text.dropPrefix? s "=\"" = some r → ∃ q, IsQualifier q ∧ s = q ++ ("=\"" ++ r) :=
    fun hs => ⟨[], .inl rfl, (Text.eq_append_of_dropPrefix? hs).trans (List.nil_append _).symm⟩
  unfold skipQualifier at h
  split at h
  · next q hcolon =>
    split at h
    · exact hnone h
    · next hend =>
      refine ⟨(":" : Text) ++ q.takeWhile (·.isWord), .inr ⟨_, rfl, ?_⟩, ?_⟩
      · cases q with
        | nil => exact absurd rfl hend
        | cons d q =>
          have hd : d.isWord = true := by simpa [Text.atWordEnd] using hend
          refine Bool.and_eq_true_iff.2 ⟨?_, List.all_takeWhile⟩
          rw [List.takeWhile_cons_of_pos hd]
          rfl
      · rw [Text.eq_append_of_dropPrefix? hcolon, List.append_assoc, ← Text.eq_append_of_dropPrefix? h,
          List.takeWhile_append_dropWhile]
  · exact hnone h

/-- What is recognised is the front of a declaration, and whatever follows one is left. -/
theorem opensDeclaration?_eq_some_iff : opensDeclaration? s = some r ↔ ∃ a, IsOpening a ∧ s = a ++ r := by
  constructor
  · intro h
    unfold opensDeclaration? at h
    split at h
    · cases h
    · next c rest =>
      split at h
      · next hspace =>
        obtain ⟨behind, hword, h⟩ := Option.bind_eq_some_iff.1 h
        obtain ⟨qualifier, hqualifier, rfl⟩ := exists_qualifier h
        refine ⟨_, ⟨List.takeWhile (·.isSpace) (c :: rest), qualifier, rfl, ?_,
          fun d hd => List.all_eq_true.1 List.all_takeWhile d hd, hqualifier⟩, ?_⟩
        · rw [List.takeWhile_cons_of_pos hspace]
          exact List.cons_ne_nil _ _
        · have hs := List.takeWhile_append_dropWhile (p := (·.isSpace)) (l := c :: rest)
          rw [← Text.trimStart, Text.eq_append_of_dropPrefix? hword] at hs
          simpa only [List.append_assoc] using hs.symm
      · cases h
  · rintro ⟨a, ⟨space, qualifier, rfl, hne, hall, hqualifier⟩, rfl⟩
    cases space with
    | nil => exact absurd rfl hne
    | cons c space =>
      have htrim : Text.trimStart ((c :: space) ++ ("xmlns" ++ (qualifier ++ ("=\"" ++ r)))) =
          ("xmlns" : Text) ++ (qualifier ++ ("=\"" ++ r)) := by
        rw [Text.trimStart, List.dropWhile_append_of_pos hall]
        rfl
      have hs : (c :: space) ++ (("xmlns" : Text) ++ (qualifier ++ "=\"")) ++ r =
          (c :: space) ++ (("xmlns" : Text) ++ (qualifier ++ ("=\"" ++ r))) := by
        simp only [List.append_assoc]
      rw [hs, List.cons_append, opensDeclaration?, if_pos (hall c List.mem_cons_self), ← List.cons_append, htrim,
        Text.dropPrefix?_append, Option.bind_some, skipQualifier_append hqualifier]
      exact Text.dropPrefix?_append "=\"" r

theorem announces_of_isInfix (ha : IsOpening a) (h : a <:+: s) : announces s = true := by
  obtain ⟨front, rest, rfl⟩ := h
  rw [announces, Text.holds, Option.isSome_iff_ne_none]
  intro hnone
  have hat := Text.breakAt?_eq_none_iff.1 hnone front.length (by simp)
  rw [List.append_assoc, List.drop_left, opensDeclaration?_eq_some_iff.2 ⟨a, ha, rfl⟩] at hat
  cases hat

/-! ### Places where nothing is taken out -/

/-- The rest of a text past the first place of a code point is told by the text. -/
theorem IsOpening.exists_cons (ha : IsOpening a) : ∃ c rest, a = c :: rest ∧ c.isSpace = true := by
  obtain ⟨space, qualifier, rfl, hne, hall, -⟩ := ha
  cases space with
  | nil => exact absurd rfl hne
  | cons c space => exact ⟨c, _, rfl, hall c List.mem_cons_self⟩

/-- May stand in the front of a declaration before the quote. -/
def isOpeningPoint (c : CodePoint) : Bool := c.isSpace || c.isWord || c == ':' || c == '='

/-- The front of a declaration ends in a quote. -/
theorem IsOpening.exists_concat (ha : IsOpening a) :
    ∃ b : Text, a = b ++ [('"' : CodePoint)] ∧ ∀ c ∈ b, isOpeningPoint c = true := by
  obtain ⟨space, qualifier, rfl, -, hall, hqualifier⟩ := ha
  refine ⟨space ++ (("xmlns" : Text) ++ (qualifier ++ "=")), by simp only [List.append_assoc]; rfl, fun c hc => ?_⟩
  have hword : ∀ c ∈ ("xmlns" : Text), isOpeningPoint c = true := by decide
  have hown : ∀ c ∈ (":=" : Text), isOpeningPoint c = true := by decide
  rcases List.mem_append.1 hc with hc | hc
  · simp [isOpeningPoint, hall c hc]
  · rcases List.mem_append.1 hc with hc | hc
    · exact hword c hc
    · rcases List.mem_append.1 hc with hc | hc
      · rcases hqualifier with rfl | ⟨q, rfl, hq⟩
        · cases hc
        · obtain ⟨-, -, -, hq⟩ := isWord_of_isOneWord hq
          rcases List.mem_append.1 hc with hc | hc
          · exact hown c (List.mem_append.2 (.inl hc) : c ∈ (":" : Text) ++ ("=" : Text))
          · simp [isOpeningPoint, hq c hc]
      · exact hown c (List.mem_append.2 (.inr hc) : c ∈ (":" : Text) ++ ("=" : Text))

theorem IsOpening.not_mem (ha : IsOpening a) (hc : isOpeningPoint c = false) (hquote : c ≠ '"') : c ∉ a := by
  obtain ⟨b, rfl, hb⟩ := ha.exists_concat
  intro hmem
  rcases List.mem_append.1 hmem with hmem | hmem
  · rw [hb c hmem] at hc
    cases hc
  · exact hquote (List.mem_singleton.1 hmem)

/-- At the front of the text nothing is taken out, if no front of a declaration stands there. -/
theorem skipDeclaration?_eq_none (h : ∀ a, IsOpening a → ¬ a <+: s) : skipDeclaration? s = none := by
  rw [skipDeclaration?_eq]
  cases hopen : opensDeclaration? s with
  | none => rfl
  | some r =>
    obtain ⟨a, ha, rfl⟩ := opensDeclaration?_eq_some_iff.1 hopen
    exact absurd (List.prefix_append a r) (h a ha)

/-- Nothing is taken out of a part of a text in which no place is the front of a declaration. -/
theorem dropDeclarations_append {b : Text} (h : Text.Passes skipDeclaration? b s) :
    dropDeclarations (b ++ s) = b ++ dropDeclarations s := h.replacing

theorem dropDeclarations_cons (h : skipDeclaration? (c :: s) = none) :
    dropDeclarations (c :: s) = c :: dropDeclarations s :=
  dropDeclarations_append (b := [c]) (Text.passes_cons.2 ⟨h, Text.passes_nil⟩)

theorem dropDeclarations_unspaced {b : Text} (h : isUnspaced b = true) (s : Text) :
    dropDeclarations (b ++ s) = b ++ dropDeclarations s := by
  refine dropDeclarations_append fun u hu hsuffix => skipDeclaration?_eq_none fun a ha hprefix => ?_
  obtain ⟨c, rest, rfl, hc⟩ := ha.exists_cons
  cases u with
  | nil => exact hu rfl
  | cons d u =>
    obtain ⟨rfl, -⟩ := List.cons_prefix_cons.1 hprefix
    have hd := List.all_eq_true.1 h c (hsuffix.subset List.mem_cons_self)
    rw [hc] at hd
    cases hd

/-! ### Declarations -/

/-- The front of a declaration with its quote is taken away up to the next quote. -/
theorem dropDeclarations_opening {v : Text} (ha : IsOpening a) (hv : ('"' : CodePoint) ∉ v) (s : Text) :
    dropDeclarations (a ++ (v ++ ('"' : CodePoint) :: s)) = dropDeclarations s := by
  have hskip : skipDeclaration? (a ++ (v ++ ('"' : CodePoint) :: s)) = some s := by
    rw [skipDeclaration?_eq, opensDeclaration?_eq_some_iff.2 ⟨a, ha, rfl⟩, Option.bind_some]
    exact congrArg (Option.map (·.2)) (Text.breakOn?_of_not_mem hv)
  have hs : a ++ (v ++ ('"' : CodePoint) :: s) = (a ++ (v ++ [('"' : CodePoint)])) ++ s := by simp
  obtain ⟨c, rest, rfl, -⟩ := ha.exists_cons
  rw [hs] at hskip ⊢
  exact Text.substitute_replacing_append (List.cons_ne_nil _ _) hskip

/-- A declaration of one word or of none is taken out. -/
theorem dropDeclarations_declaration {d : Declaration} (hd : d.qualifier.all isOneWord = true) (s : Text) :
    dropDeclarations (d.write ++ s) = dropDeclarations s := by
  have hopening : ∀ qualifier : Text, IsQualifier qualifier →
      dropDeclarations ((" " ++ ("xmlns" ++ (qualifier ++ "=\""))) ++ (escapeValue d.space ++ ('"' : CodePoint) :: s)) =
        dropDeclarations s := fun qualifier hqualifier =>
    dropDeclarations_opening ⟨_, qualifier, rfl, by decide, by decide, hqualifier⟩ (quote_not_mem_escapeValue d.space) s
  obtain ⟨qualifier, space⟩ := d
  cases qualifier with
  | none =>
    rw [← hopening [] (.inl rfl)]
    simp only [Declaration.write, writeValue, List.append_assoc]
    rfl
  | some q =>
    rw [← hopening (":" ++ q) (.inr ⟨q, rfl, by simpa using hd⟩)]
    simp only [Declaration.write, writeValue, List.append_assoc]
    rfl

/-! ### Texts and values -/

/-- Nothing is taken out of a text that does not read like a declaration, in front of markup. -/
theorem dropDeclarations_text (ht : announces t = false) (s : Text) :
    dropDeclarations (escapeText t ++ ('<' : CodePoint) :: s) = escapeText t ++ dropDeclarations (('<' : CodePoint) :: s) := by
  refine dropDeclarations_append fun u _ hsuffix => skipDeclaration?_eq_none fun a ha hprefix => ?_
  have hamp : ('&' : CodePoint) ∉ a := ha.not_mem (by decide) (by decide)
  have hlt : ('<' : CodePoint) ∉ a := ha.not_mem (by decide) (by decide)
  obtain ⟨rest, rfl⟩ := Text.prefix_of_prefix_append_cons hlt hprefix
  obtain ⟨front, hfront⟩ := hsuffix
  obtain ⟨c, a, rfl, hc⟩ := ha.exists_cons
  obtain ⟨f, t', rfl, -⟩ := isEscape_escapeTextPoint.exists_of_isInfix (isReferencePoint_of_isSpace hc) hamp hfront.symm
  rw [announces_of_isInfix ha ⟨f, t', by simp⟩] at ht
  cases ht

/-- Nothing is taken out of a value that does not read like a declaration with the quote behind it. -/
theorem dropDeclarations_value {v : Text} (hv : announces (v ++ [('"' : CodePoint)]) = false) (s : Text) :
    dropDeclarations (escapeValue v ++ ('"' : CodePoint) :: s) = escapeValue v ++ dropDeclarations (('"' : CodePoint) :: s) := by
  refine dropDeclarations_append fun u _ hsuffix => skipDeclaration?_eq_none fun a ha hprefix => ?_
  obtain ⟨front, hfront⟩ := hsuffix
  have hamp : ('&' : CodePoint) ∉ a := ha.not_mem (by decide) (by decide)
  obtain ⟨b, rfl, hpoints⟩ := ha.exists_concat
  have hquote : ('"' : CodePoint) ∉ b := fun hmem => absurd (hpoints _ hmem) (by decide)
  obtain ⟨c, rest, hcons, hc⟩ := ha.exists_cons
  have hu : ('"' : CodePoint) ∉ u := fun hmem =>
    quote_not_mem_escapeValue v (by rw [← hfront]; exact List.mem_append_right _ hmem)
  obtain ⟨more, hmore⟩ := hprefix
  obtain ⟨rfl, -⟩ := Text.append_cons_inj (by simpa using hmore) hquote hu
  cases b with
  | nil =>
    obtain ⟨rfl, -⟩ := List.cons.inj hcons
    exact absurd hc (by decide)
  | cons d b =>
    obtain ⟨rfl, -⟩ := List.cons.inj hcons
    have hb : ('&' : CodePoint) ∉ d :: b := fun hmem => hamp (List.mem_append_left _ hmem)
    obtain ⟨f, t', rfl, hrest⟩ := isEscape_escapeValuePoint.exists_of_isInfix (isReferencePoint_of_isSpace hc) hb
      (show v.flatMap escapeValuePoint = front ++ (d :: b ++ []) from hfront.symm.trans (by simp))
    have ht' : t' = [] := by
      cases t' with
      | nil => rfl
      | cons x t' =>
        rw [List.flatMap_cons] at hrest
        rcases isEscape_escapeValuePoint.cases x with heq | ⟨body, heq, -⟩ <;> rw [heq] at hrest <;> cases hrest
    rw [announces_of_isInfix ha ⟨f, [], by simp [ht']⟩] at hv
    cases hv

end EquationExport.Omml
