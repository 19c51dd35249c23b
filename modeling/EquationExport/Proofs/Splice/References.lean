import EquationExport.Proofs.Text.Canonical
import EquationExport.Proofs.Text.Passing
import EquationExport.Proofs.Xml.Reference
import EquationExport.Splice

/-!
# References in spliced markup

Before markup is spliced in, its text is cleaned, the declarations of the prefixes `m` and `w` are deleted, and every
ampersand that starts no reference is escaped. What counts as a reference there is nearly what XML counts as one: the
five names, digits of ASCII in base ten or sixteen, and a legal character behind them. But the digits of every script
are taken for decimal digits, and any number for that of a character. A reference of one of these kinds stays in the
markup although it is none.

A reference that XML accepts goes through all the stages unchanged, unless it stands in a declaration that is deleted.
-/

namespace EquationExport.Splice

open EquationExport.Text Xml

variable {s t body digits rest : Text} {c d : CodePoint}

/-! ### What is taken for a reference -/

/-- What stands between an ampersand that is left alone and the semicolon. -/
inductive ReadsAsReference : Text → Prop where
  | name {body : Text} {c : CodePoint} : (body, c) ∈ namedCharacters → ReadsAsReference body
  | decimal {digits : Text} : digits ≠ [] → (∀ d ∈ digits, d.isDigit = true) → ReadsAsReference (("#" : Text) ++ digits)
  | hexadecimal {digits : Text} : digits ≠ [] → (∀ d ∈ digits, d.isHexDigit = true) →
    ReadsAsReference (("#x" : Text) ++ digits)

/-- A number that reads as one of a reference and is none: in digits that XML does not know, or of no legal character. -/
inductive OddNumber : Text → Prop where
  | decimal {digits : Text} : digits ≠ [] → (∀ d ∈ digits, d.isDigit = true) → characterOf? 10 asciiDigit? digits = none →
    OddNumber (("#" : Text) ++ digits)
  | hexadecimal {digits : Text} : digits ≠ [] → (∀ d ∈ digits, d.isHexDigit = true) →
    characterOf? 16 (·.hexDigit?) digits = none → OddNumber (("#x" : Text) ++ digits)

theorem ReadsAsReference.spells_or_odd (h : ReadsAsReference body) : (∃ c, Spells body c) ∨ OddNumber body := by
  cases h with
  | name hname => exact .inl ⟨_, .name hname⟩
  | @decimal digits hne hdigits =>
    cases hchar : characterOf? 10 asciiDigit? digits with
    | none => exact .inr (.decimal hne hdigits hchar)
    | some c => exact .inl ⟨c, .decimal hchar⟩
  | @hexadecimal digits hne hdigits =>
    cases hchar : characterOf? 16 (·.hexDigit?) digits with
    | none => exact .inr (.hexadecimal hne hdigits hchar)
    | some c => exact .inl ⟨c, .hexadecimal hchar⟩

theorem OddNumber.readsAsReference (h : OddNumber body) : ReadsAsReference body := by
  cases h with
  | decimal hne hdigits _ => exact .decimal hne hdigits
  | hexadecimal hne hdigits _ => exact .hexadecimal hne hdigits

theorem isDigit_of_asciiDigit? (h : (asciiDigit? c).isSome = true) : c.isDigit = true := by
  unfold asciiDigit? at h
  split at h
  · next hdigit =>
    exact List.any_eq_true.2 ⟨(0x30, 0x39), List.mem_cons_self, hdigit⟩
  · cases h

theorem ne_nil_of_characterOf? {base : Nat} {digit? : CodePoint → Option Nat} (h : characterOf? base digit? digits = some c) :
    digits ≠ [] := by
  rintro rfl
  cases h

/-- What XML takes for a reference the program does too. -/
theorem readsAsReference_of_spells (h : Spells body c) : ReadsAsReference body := by
  cases h with
  | name hname => exact .name hname
  | decimal hdigits =>
    exact .decimal (ne_nil_of_characterOf? hdigits) fun d hd => isDigit_of_asciiDigit? (isSome_of_characterOf? hdigits d hd)
  | hexadecimal hdigits => exact .hexadecimal (ne_nil_of_characterOf? hdigits) (isSome_of_characterOf? hdigits)

/-- What is taken for a reference has neither an ampersand nor a semicolon inside. -/
theorem ReadsAsReference.not_mem (h : ReadsAsReference body) (hd : d = CodePoint.ofChar '&' ∨ d = CodePoint.ofChar ';') : d ∉ body := by
  have hdigit : d.isDigit = false ∧ d.isHexDigit = false ∧ d ∉ ("#x" : Text) ∧ ∀ named ∈ namedCharacters, d ∉ named.1 := by
    rcases hd with rfl | rfl <;> decide
  obtain ⟨hdecimal, hhexadecimal, hsign, hnames⟩ := hdigit
  cases h with
  | name hname => exact hnames _ hname
  | decimal _ hdigits =>
    intro hmem
    rcases List.mem_append.1 hmem with hmem | hmem
    · exact hsign (List.mem_append_left ("x" : Text) hmem)
    · rw [hdigits d hmem] at hdecimal
      cases hdecimal
  | hexadecimal _ hdigits =>
    intro hmem
    rcases List.mem_append.1 hmem with hmem | hmem
    · exact hsign hmem
    · rw [hdigits d hmem] at hhexadecimal
      cases hhexadecimal

/-- An odd number is no reference of XML. -/
theorem OddNumber.not_spells (h : OddNumber body) : ¬ Spells body c := by
  intro hspells
  have hread := hspells.reference?_eq []
  rw [reference?, show (";" : Text) = [CodePoint.ofChar ';'] from rfl,
    breakOn?_of_not_mem (h.readsAsReference.not_mem (.inr rfl))] at hread
  cases h with
  | @decimal digits _ hdigits hnone =>
    have hx := dropPrefix?_number fun hmem => absurd (hdigits _ hmem) (by decide)
    simp [hx, dropPrefix?_append, hnone] at hread
  | hexadecimal _ _ hnone => simp [dropPrefix?_append, hnone] at hread

theorem startsReferenceOf_eq_true_iff {digit : CodePoint → Bool} (hsemicolon : digit ';' = false) :
    startsReferenceOf digit s = true ↔
      ∃ digits rest, digits ≠ [] ∧ (∀ d ∈ digits, digit d = true) ∧ s = digits ++ CodePoint.ofChar ';' :: rest := by
  simp only [startsReferenceOf, Text.span, Bool.and_eq_true, Bool.not_eq_true', List.isEmpty_eq_false_iff]
  constructor
  · rintro ⟨hne, hbehind⟩
    obtain ⟨rest, hrest⟩ := dropPrefix?_isSome_iff.1 hbehind
    refine ⟨s.takeWhile digit, rest, hne, fun d hd => List.all_eq_true.1 List.all_takeWhile d hd, ?_⟩
    conv_lhs => rw [← List.takeWhile_append_dropWhile (p := digit) (l := s), ← hrest]
    rfl
  · rintro ⟨digits, rest, hne, hdigits, rfl⟩
    rw [List.takeWhile_append_of_pos hdigits, List.dropWhile_append_of_pos hdigits,
      List.takeWhile_cons_of_neg (by simp [hsemicolon]), List.dropWhile_cons_of_neg (by simp [hsemicolon]), List.append_nil]
    exact ⟨hne, dropPrefix?_isSome_iff.2 ⟨rest, rfl⟩⟩

theorem dropOneOf?_isSome_iff {marks : List Text} : (s.dropOneOf? marks).isSome = true ↔ ∃ mark ∈ marks, mark <+: s := by
  induction marks with
  | nil => simp [Text.dropOneOf?]
  | cons mark marks ih =>
    rw [Text.dropOneOf?, List.exists_mem_cons_iff, ← ih, ← dropPrefix?_isSome_iff]
    cases s.dropPrefix? mark <;> simp

theorem mem_and_eq_of_dropOneOf? {mark : Text} {marks : List Text} (h : s.dropOneOf? marks = some (mark, rest)) :
    mark ∈ marks ∧ s = mark ++ rest := by
  induction marks with
  | nil => cases h
  | cons m marks ih =>
    rw [Text.dropOneOf?] at h
    split at h
    · next behind hdrop =>
      obtain ⟨rfl, rfl⟩ := Prod.mk.inj (Option.some.inj h)
      exact ⟨List.mem_cons_self, eq_append_of_dropPrefix? hdrop⟩
    · exact (ih h).imp_left (List.mem_cons_of_mem _)

/-- An ampersand is left alone in front of what reads as a reference. -/
theorem startsReference_eq_true_iff :
    startsReference s = true ↔ ∃ body rest, ReadsAsReference body ∧ s = body ++ CodePoint.ofChar ';' :: rest := by
  have hmarks : ∀ mark ∈ Text.ofStrings ["amp;", "lt;", "gt;", "quot;", "apos;"],
      ∃ named ∈ namedCharacters, mark = named.1 ++ (";" : Text) := by decide
  have hnamed : ∀ named ∈ namedCharacters,
      named.1 ++ (";" : Text) ∈ Text.ofStrings ["amp;", "lt;", "gt;", "quot;", "apos;"] := by decide
  have hsign : ∀ (sign : Text) (digit : CodePoint → Bool), ((s.dropPrefix? sign).any (startsReferenceOf digit)) = true ↔
      ∃ r, s = sign ++ r ∧ startsReferenceOf digit r = true := by
    intro sign digit
    rw [Option.any_eq_true]
    exact exists_congr fun r => by rw [dropPrefix?_eq_some_iff]
  rw [startsReference, Bool.or_eq_true, Bool.or_eq_true, dropOneOf?_isSome_iff, hsign, hsign]
  constructor
  · rintro (⟨mark, hmark, rest, rfl⟩ | ⟨r, rfl, hr⟩ | ⟨r, rfl, hr⟩)
    · obtain ⟨named, hname, rfl⟩ := hmarks mark hmark
      exact ⟨named.1, rest, .name hname, by rw [List.append_assoc]; rfl⟩
    · obtain ⟨digits, rest, hne, hdigits, rfl⟩ := (startsReferenceOf_eq_true_iff (by decide)).1 hr
      exact ⟨_, rest, .decimal hne hdigits, (List.append_assoc _ _ _).symm⟩
    · obtain ⟨digits, rest, hne, hdigits, rfl⟩ := (startsReferenceOf_eq_true_iff (by decide)).1 hr
      exact ⟨_, rest, .hexadecimal hne hdigits, (List.append_assoc _ _ _).symm⟩
  · rintro ⟨body, rest, hbody, rfl⟩
    cases hbody with
    | name hname => exact .inl ⟨_, hnamed _ hname, rest, by rw [List.append_assoc]; rfl⟩
    | decimal hne hdigits =>
      exact .inr (.inl ⟨_, List.append_assoc _ _ _,
        (startsReferenceOf_eq_true_iff (by decide)).2 ⟨_, rest, hne, hdigits, rfl⟩⟩)
    | hexadecimal hne hdigits =>
      exact .inr (.inr ⟨_, List.append_assoc _ _ _,
        (startsReferenceOf_eq_true_iff (by decide)).2 ⟨_, rest, hne, hdigits, rfl⟩⟩)

/-! ### Stray ampersands -/

/-- The text with every ampersand escaped that starts no reference. -/
def escapeAmpersands (s : Text) : Text := s.substitute fun _ => escapeAmpersand?

/-- The clean text without declarations of the two prefixes. -/
def withoutDeclarations (omml : Text) : Text := omml.sanitize.substitute (Text.deleting skipDeclaration?)

theorem sanitizeOmml_eq (omml : Text) : sanitizeOmml omml = escapeAmpersands (withoutDeclarations omml) := rfl

/-- A reference of XML stands at the front, behind its ampersand. -/
def StartsXmlReference (s : Text) : Prop := ∃ body c rest, Spells body c ∧ s = body ++ CodePoint.ofChar ';' :: rest

theorem startsXmlReference_iff : StartsXmlReference s ↔ (reference? s).isSome = true := by
  rw [Option.isSome_iff_exists]
  constructor
  · rintro ⟨body, c, rest, hbody, rfl⟩
    exact ⟨_, hbody.reference?_eq rest⟩
  · rintro ⟨⟨c, rest⟩, h⟩
    obtain ⟨body, hbody, rfl⟩ := reference?_eq_some_iff.1 h
    exact ⟨body, c, rest, hbody, rfl⟩

theorem escapeAmpersand?_eq_none (h : c ≠ CodePoint.ofChar '&' ∨ startsReference s = true) : escapeAmpersand? (c :: s) = none := by
  unfold escapeAmpersand?
  split
  · next rest hrest =>
    obtain ⟨rfl, rfl⟩ := List.cons.inj (dropPrefix?_eq_some_iff.1 hrest)
    exact if_pos (h.resolve_left fun hne => hne rfl)
  · rfl

theorem escapeAmpersands_keep (h : c ≠ CodePoint.ofChar '&' ∨ startsReference s = true) :
    escapeAmpersands (c :: s) = c :: escapeAmpersands s :=
  substitute_cons (escapeAmpersand?_eq_none h)

theorem escapeAmpersands_stray (h : startsReference s = false) :
    escapeAmpersands (CodePoint.ofChar '&' :: s) = ("&amp;" : Text) ++ escapeAmpersands s := by
  have hescape : escapeAmpersand? (("&" : Text) ++ s) = some (("&amp;" : Text), s) := by
    rw [escapeAmpersand?, dropPrefix?_append]
    simp [h]
  exact substitute_append (List.cons_ne_nil _ _) hescape

/-- A part without ampersands is kept. -/
theorem escapeAmpersands_append (h : CodePoint.ofChar '&' ∉ t) (s : Text) :
    escapeAmpersands (t ++ s) = t ++ escapeAmpersands s := by
  induction t with
  | nil => rfl
  | cons c t ih =>
    rw [List.cons_append, escapeAmpersands_keep (.inl fun hc => h (hc ▸ List.mem_cons_self)),
      ih fun hmem => h (List.mem_cons_of_mem _ hmem), List.cons_append]

theorem ReadsAsReference.append_semicolon_not_mem (h : ReadsAsReference body) :
    CodePoint.ofChar '&' ∉ body ++ (";" : Text) := fun hmem =>
  (List.mem_append.1 hmem).elim (h.not_mem (.inl rfl)) (by decide)

/-- Escaping what follows does not change whether a reference of XML starts at the front. -/
theorem startsXmlReference_escapeAmpersands_iff (h : startsReference s = true) :
    StartsXmlReference (escapeAmpersands s) ↔ StartsXmlReference s := by
  obtain ⟨body, rest, hbody, rfl⟩ := startsReference_eq_true_iff.1 h
  have hbehind : ∀ rest, StartsXmlReference (body ++ CodePoint.ofChar ';' :: rest) ↔ ∃ c, Spells body c := by
    intro rest
    constructor
    · rintro ⟨body', c, rest', hspells, heq⟩
      obtain ⟨rfl, -⟩ := append_cons_inj heq (hbody.not_mem (.inr rfl)) (hspells.not_mem (by decide))
      exact ⟨c, hspells⟩
    · rintro ⟨c, hspells⟩
      exact ⟨body, c, rest, hspells, rfl⟩
  have heq : escapeAmpersands (body ++ CodePoint.ofChar ';' :: rest) =
      body ++ CodePoint.ofChar ';' :: escapeAmpersands rest := by
    have happend := escapeAmpersands_append hbody.append_semicolon_not_mem rest
    rw [List.append_assoc, List.append_assoc] at happend
    exact happend
  rw [heq, hbehind, hbehind]

theorem suffix_append_iff_of_not_mem (h : c ∉ t) : c :: s <:+ t ++ body ↔ c :: s <:+ body := by
  induction t with
  | nil => rfl
  | cons d t ih =>
    rw [List.cons_append, List.suffix_cons_iff, ih fun hmem => h (List.mem_cons_of_mem _ hmem), or_iff_right]
    exact fun heq => h ((List.cons.inj heq).1 ▸ List.mem_cons_self)

/--
Every ampersand of an escaped text starts a reference of XML, exactly if those do that have been left alone as what
reads like one.
-/
theorem forall_startsXmlReference_escapeAmpersands_iff :
    (∀ v, CodePoint.ofChar '&' :: v <:+ escapeAmpersands s → StartsXmlReference v) ↔
      ∀ v, CodePoint.ofChar '&' :: v <:+ s → startsReference v = true → StartsXmlReference v := by
  induction s with
  | nil => simp [escapeAmpersands, Text.substitute, substituteFrom]
  | cons c s ih =>
    have hsuffix : (∀ v, CodePoint.ofChar '&' :: v <:+ c :: s → startsReference v = true → StartsXmlReference v) ↔
        (c = CodePoint.ofChar '&' → startsReference s = true → StartsXmlReference s) ∧
          ∀ v, CodePoint.ofChar '&' :: v <:+ s → startsReference v = true → StartsXmlReference v := by
      simp only [List.suffix_cons_iff, List.cons.injEq]
      constructor
      · intro h
        exact ⟨fun hc => h s (.inl ⟨hc.symm, rfl⟩), fun v hv => h v (.inr hv)⟩
      · rintro ⟨hfront, hbehind⟩ v (⟨hc, rfl⟩ | hv)
        · exact hfront hc.symm
        · exact hbehind v hv
    rw [hsuffix, ← ih]
    by_cases hkeep : c ≠ CodePoint.ofChar '&' ∨ startsReference s = true
    · rw [escapeAmpersands_keep hkeep]
      simp only [List.suffix_cons_iff, List.cons.injEq]
      constructor
      · intro h
        refine ⟨fun hc hstarts => ?_, fun v hv => h v (.inr hv)⟩
        exact (startsXmlReference_escapeAmpersands_iff hstarts).1 (h _ (.inl ⟨hc.symm, rfl⟩))
      · rintro ⟨hfront, hbehind⟩ v (⟨hc, rfl⟩ | hv)
        · have hstarts := hkeep.resolve_left fun hne => hne hc.symm
          exact (startsXmlReference_escapeAmpersands_iff hstarts).2 (hfront hc.symm hstarts)
        · exact hbehind v hv
    · obtain ⟨hc, hstray⟩ := not_or.1 hkeep
      obtain rfl := not_not.1 hc
      rw [escapeAmpersands_stray (Bool.eq_false_iff.2 hstray)]
      have hescaped : StartsXmlReference (("amp;" : Text) ++ escapeAmpersands s) :=
        ⟨"amp", '&', escapeAmpersands s, .name (by decide), rfl⟩
      have hsuffixes : ∀ v, CodePoint.ofChar '&' :: v <:+ ("&amp;" : Text) ++ escapeAmpersands s ↔
          v = ("amp;" : Text) ++ escapeAmpersands s ∨ CodePoint.ofChar '&' :: v <:+ escapeAmpersands s := by
        intro v
        rw [show ("&amp;" : Text) = CodePoint.ofChar '&' :: ("amp;" : Text) from rfl, List.cons_append,
          List.suffix_cons_iff, suffix_append_iff_of_not_mem (by decide), List.cons.injEq, and_iff_right rfl]
      constructor
      · exact fun h => ⟨fun _ hstarts => absurd hstarts hstray, fun v hv => h v ((hsuffixes v).2 (.inr hv))⟩
      · rintro ⟨-, hbehind⟩ v hv
        rcases (hsuffixes v).1 hv with rfl | hv
        · exact hescaped
        · exact hbehind v hv

/-- Every ampersand of an escaped text starts a reference of XML, exactly if no odd number stood behind one. -/
theorem escapeAmpersands_legal_iff :
    (∀ v, CodePoint.ofChar '&' :: v <:+ escapeAmpersands s → StartsXmlReference v) ↔
      ∀ body rest, CodePoint.ofChar '&' :: (body ++ CodePoint.ofChar ';' :: rest) <:+ s → ¬ OddNumber body := by
  rw [forall_startsXmlReference_escapeAmpersands_iff]
  constructor
  · intro h body rest hsuffix hodd
    obtain ⟨body', c, rest', hspells, heq⟩ :=
      h _ hsuffix (startsReference_eq_true_iff.2 ⟨body, rest, hodd.readsAsReference, rfl⟩)
    obtain ⟨rfl, -⟩ := append_cons_inj heq (hodd.readsAsReference.not_mem (.inr rfl)) (hspells.not_mem (by decide))
    exact hodd.not_spells hspells
  · intro h v hv hstarts
    obtain ⟨body, rest, hbody, rfl⟩ := startsReference_eq_true_iff.1 hstarts
    rcases hbody.spells_or_odd with ⟨c, hspells⟩ | hodd
    · exact ⟨body, c, rest, hspells, rfl⟩
    · exact absurd hodd (h body rest hv)

/-! ### References that are kept -/

/-- What reads as a reference in front of an ampersand reads so whatever follows the ampersand. -/
theorem startsReference_append_cons (s t : Text) :
    startsReference (s ++ CodePoint.ofChar '&' :: t) = startsReference s := by
  rw [Bool.eq_iff_iff, startsReference_eq_true_iff, startsReference_eq_true_iff]
  constructor
  · rintro ⟨body, rest, hbody, heq⟩
    have hfront : body ++ (";" : Text) <+: s :=
      prefix_of_prefix_append_cons hbody.append_semicolon_not_mem ⟨rest, by rw [heq, List.append_assoc]; rfl⟩
    obtain ⟨rest, rfl⟩ := hfront
    exact ⟨body, rest, hbody, List.append_assoc _ _ _⟩
  · rintro ⟨body, rest, hbody, rfl⟩
    exact ⟨body, rest ++ CodePoint.ofChar '&' :: t, hbody, by simp⟩

/-- Escaping begins anew at an ampersand. -/
theorem escapeAmpersands_append_cons (s t : Text) :
    escapeAmpersands (s ++ CodePoint.ofChar '&' :: t) = escapeAmpersands s ++ escapeAmpersands (CodePoint.ofChar '&' :: t) := by
  induction s with
  | nil => rfl
  | cons c s ih =>
    by_cases hkeep : c ≠ CodePoint.ofChar '&' ∨ startsReference s = true
    · rw [List.cons_append, escapeAmpersands_keep hkeep,
        escapeAmpersands_keep (hkeep.imp_right fun h => (startsReference_append_cons s t).trans h), ih, List.cons_append]
    · obtain ⟨hc, hstray⟩ := not_or.1 hkeep
      obtain rfl := not_not.1 hc
      have hstray := Bool.eq_false_iff.2 hstray
      rw [List.cons_append, escapeAmpersands_stray hstray,
        escapeAmpersands_stray ((startsReference_append_cons s t).trans hstray), ih, List.append_assoc]

/-- A reference as it is written. -/
def writeReference (body : Text) : Text := CodePoint.ofChar '&' :: (body ++ (";" : Text))

/-- A reference is not escaped, and escaping goes on behind it. -/
theorem escapeAmpersands_writeReference (h : ReadsAsReference body) (s t : Text) :
    escapeAmpersands (s ++ (writeReference body ++ t)) = escapeAmpersands s ++ (writeReference body ++ escapeAmpersands t) := by
  have hstarts : startsReference ((body ++ (";" : Text)) ++ t) = true :=
    startsReference_eq_true_iff.2 ⟨body, t, h, List.append_assoc _ _ _⟩
  rw [writeReference, List.cons_append, escapeAmpersands_append_cons, escapeAmpersands_keep (.inr hstarts),
    escapeAmpersands_append h.append_semicolon_not_mem, List.cons_append]

/-- A declaration of one of the prefixes, with the white space in front of it. -/
def IsDeclaration (old : Text) : Prop :=
  ∃ space name value : Text, old = space ++ (name ++ (value ++ ("\"" : Text))) ∧ space ≠ [] ∧ (∀ c ∈ space, c.isSpace = true) ∧
    name ∈ Text.ofStrings ["xmlns:m=\"", "xmlns:w=\""] ∧ CodePoint.ofChar '"' ∉ value

theorem skipDeclaration?_eq_some_iff : skipDeclaration? s = some rest ↔ ∃ old, IsDeclaration old ∧ s = old ++ rest := by
  constructor
  · intro h
    cases s with
    | nil => cases h
    | cons c s =>
      rw [skipDeclaration?] at h
      split at h
      · next hspace =>
        obtain ⟨⟨name, r⟩, hname, h⟩ := Option.bind_eq_some_iff.1 h
        obtain ⟨⟨value, rest'⟩, hvalue, rfl⟩ := Option.map_eq_some_iff.1 h
        obtain ⟨rfl, hquote⟩ := breakOn?_singleton_eq_some_iff.1 hvalue
        obtain ⟨hmem, htrim⟩ := mem_and_eq_of_dropOneOf? hname
        refine ⟨_, ⟨List.takeWhile (·.isSpace) (c :: s), name, value, rfl, ?_,
          fun d hd => List.all_eq_true.1 List.all_takeWhile d hd, hmem, hquote⟩, ?_⟩
        · rw [List.takeWhile_cons_of_pos hspace]
          exact List.cons_ne_nil _ _
        · have hs := List.takeWhile_append_dropWhile (p := (·.isSpace)) (l := c :: s)
          rw [← Text.trimStart, htrim] at hs
          rw [List.append_assoc, List.append_assoc, List.append_assoc]
          exact hs.symm
      · cases h
  · rintro ⟨_, ⟨space, name, value, rfl, hne, hspace, hname, hquote⟩, rfl⟩
    have hmark : ∀ name ∈ Text.ofStrings ["xmlns:m=\"", "xmlns:w=\""], ∀ r : Text,
        (name ++ r).trimStart = name ++ r ∧
          (name ++ r).dropOneOf? ["xmlns:m=\"", "xmlns:w=\""] = some (name, r) := by
      intro name hname r
      simp only [Text.ofStrings, List.map_cons, List.map_nil, List.mem_cons, List.not_mem_nil, or_false] at hname
      rcases hname with rfl | rfl
      · exact ⟨rfl, by rw [Text.dropOneOf?, dropPrefix?_append]⟩
      · exact ⟨rfl, by simp [Text.dropOneOf?, Text.dropPrefix?, Text.ofString, CodePoint.ofChar]⟩
    obtain ⟨c, space, rfl⟩ := List.exists_cons_of_ne_nil hne
    obtain ⟨htrim, hdrop⟩ := hmark name hname (value ++ CodePoint.ofChar '"' :: rest)
    have hs : (c :: space) ++ (name ++ (value ++ ("\"" : Text))) ++ rest =
        c :: (space ++ (name ++ (value ++ CodePoint.ofChar '"' :: rest))) := by
      simp only [List.append_assoc, List.cons_append]
      rfl
    have hstart : Text.trimStart (c :: (space ++ (name ++ (value ++ CodePoint.ofChar '"' :: rest)))) =
        name ++ (value ++ CodePoint.ofChar '"' :: rest) := by
      rw [← List.cons_append, Text.trimStart, List.dropWhile_append_of_pos hspace]
      exact htrim
    rw [hs, skipDeclaration?, if_pos (hspace c List.mem_cons_self), hstart, hdrop]
    exact congrArg (Option.map (·.2)) (breakOn?_of_not_mem hquote)

theorem not_isDeclaration_nil : ¬ IsDeclaration [] := by
  rintro ⟨space, name, value, heq, hne, -⟩
  exact hne (List.append_eq_nil_iff.1 heq.symm).1

/-- A declaration ends in a quote. -/
theorem IsDeclaration.exists_concat {old : Text} (h : IsDeclaration old) : ∃ u, old = u ++ ("\"" : Text) := by
  obtain ⟨space, name, value, rfl, -⟩ := h
  exact ⟨space ++ (name ++ value), by simp only [List.append_assoc]⟩

/-- A reference is written with visible characters of ASCII, and no quote is among them. -/
theorem visible_of_mem_writeReference (h : Spells body c) (hd : d ∈ writeReference body) :
    0x21 ≤ d.val ∧ d.val ≤ 0x7E ∧ d.val ≠ 0x22 := by
  have hends : ∀ d ∈ ("&;" : Text), 0x21 ≤ d.val ∧ d.val ≤ 0x7E ∧ d.val ≠ 0x22 := by decide
  rcases List.mem_cons.1 hd with rfl | hd
  · exact hends _ List.mem_cons_self
  rcases List.mem_append.1 hd with hd | hd
  · have hpoint := h.isBodyPoint d hd
    simp only [isBodyPoint, CodePoint.isAsciiLetter, CodePoint.isAsciiDigit, CodePoint.inRange, Bool.or_eq_true,
      Bool.and_eq_true, decide_eq_true_eq, beq_iff_eq] at hpoint
    rcases hpoint with (rfl | hletter) | hdigit
    · decide
    · omega
    · omega
  · exact hends d (List.mem_cons_of_mem _ hd)

/-- Cleaning leaves a reference alone, and no declaration begins in it. -/
theorem plain_of_mem_writeReference (h : Spells body c) (hd : d ∈ writeReference body) :
    d.isZeroWidth = false ∧ d.isSurrogate = false ∧ d.isControl = false ∧ d.isSpace = false :=
  have hvisible := visible_of_mem_writeReference h hd
  CodePoint.plain_of_visible hvisible.1 hvisible.2.1

theorem substitute_deleting_writeReference (h : Spells body c) (t : Text) :
    (writeReference body ++ t).substitute (Text.deleting skipDeclaration?) =
      writeReference body ++ t.substitute (Text.deleting skipDeclaration?) := by
  refine Passes.replacing fun u hu hsuffix => ?_
  obtain ⟨d, u, rfl⟩ := List.exists_cons_of_ne_nil hu
  obtain ⟨-, -, -, hspace⟩ := plain_of_mem_writeReference h (hsuffix.subset List.mem_cons_self)
  rw [List.cons_append, skipDeclaration?, if_neg (by simp [hspace])]

/-- A reference is kept by the deletion of declarations, or stands in a declaration that is deleted. -/
theorem substitute_deleting_append_writeReference (h : Spells body c) (s t : Text) :
    (s ++ (writeReference body ++ t)).substitute (Text.deleting skipDeclaration?) =
        s.substitute (Text.deleting skipDeclaration?) ++ (writeReference body ++ t.substitute (Text.deleting skipDeclaration?)) ∨
      ∃ before old rest, Deletes skipDeclaration? (s ++ (writeReference body ++ t)) before old rest ∧ before.length < s.length ∧
        s.length + (writeReference body).length < before.length + old.length := by
  rcases substitute_deleting_append (fun _ _ => skipDeclaration?_eq_some_iff) not_isDeclaration_nil s (writeReference body ++ t) with
    heq | ⟨before, old, rest, hdeletes, hbefore, hbehind⟩
  · exact .inl (by rw [heq, substitute_deleting_writeReference h])
  · refine .inr ⟨before, old, rest, hdeletes, hbefore, ?_⟩
    by_contra hlength
    obtain ⟨old', hold, heq⟩ := skipDeclaration?_eq_some_iff.1 hdeletes.skip?_eq
    obtain rfl := List.append_cancel_right heq
    obtain ⟨u, rfl⟩ := hold.exists_concat
    -- The last character of the declaration would stand in the reference.
    have hget := congrArg (·[before.length + u.length]?) hdeletes.eq_append
    rw [List.length_append, show ("\"" : Text).length = 1 from rfl] at hbehind hlength
    simp only [List.getElem?_append_right (show s.length ≤ before.length + u.length by omega),
      List.getElem?_append_left (show before.length + u.length - s.length < (writeReference body).length by omega),
      List.getElem?_append_right (Nat.le_add_right _ _), Nat.add_sub_cancel_left, List.append_assoc,
      List.getElem?_append_right (Nat.le_refl _), Nat.sub_self] at hget
    exact (visible_of_mem_writeReference h (List.mem_of_getElem? hget)).2.2 rfl

/-! ### Clean markup -/

/--
Every ampersand of cleaned markup starts a reference of XML, exactly if behind none stood an odd number once the
declarations were deleted. A reference of XML is kept and divides the markup into two parts that are cleaned apart,
unless it stands in a declaration that is deleted.
-/
theorem sanitizeOmml_references (omml : Text) :
    ((∀ v, CodePoint.ofChar '&' :: v <:+ sanitizeOmml omml → StartsXmlReference v) ↔
      ∀ body rest, CodePoint.ofChar '&' :: (body ++ CodePoint.ofChar ';' :: rest) <:+ withoutDeclarations omml →
        ¬ OddNumber body) ∧
    ∀ front body c behind, Spells body c → omml = front ++ (writeReference body ++ behind) →
      ∃ mend : Text → Text, (mend = id ∨ mend = dropSurrogates) ∧
        omml.sanitize = (mend front).sanitize ++ (writeReference body ++ (mend behind).sanitize) ∧
        (sanitizeOmml omml = sanitizeOmml (mend front) ++ (writeReference body ++ sanitizeOmml (mend behind)) ∨
          ∃ before old rest, Deletes skipDeclaration? omml.sanitize before old rest ∧
            before.length < (mend front).sanitize.length ∧
            (mend front).sanitize.length + (writeReference body).length < before.length + old.length) := by
  refine ⟨escapeAmpersands_legal_iff, ?_⟩
  rintro front body c behind hbody rfl
  have hclean : ∀ d ∈ writeReference body, d.isZeroWidth = false ∧ d.isSurrogate = false ∧ d.isControl = false := fun d hd =>
    have hplain := plain_of_mem_writeReference hbody hd
    ⟨hplain.1, hplain.2.1, hplain.2.2.1⟩
  obtain ⟨mend, hmend, hsanitize⟩ := exists_sanitize_append hclean front behind
  refine ⟨mend, hmend, hsanitize, ?_⟩
  rcases substitute_deleting_append_writeReference hbody (mend front).sanitize (mend behind).sanitize with hkept | hdeleted
  · refine .inl ?_
    have hread := readsAsReference_of_spells hbody
    rw [sanitizeOmml_eq, withoutDeclarations, writeReference, hsanitize, ← writeReference, hkept, escapeAmpersands_writeReference hread]
    rfl
  · rw [writeReference, hsanitize]
    exact .inr hdeleted

theorem OddNumber.sign_mem (h : OddNumber body) : CodePoint.ofChar '#' ∈ body := by
  cases h with
  | decimal | hexadecimal => exact List.mem_append_left _ (by decide)

/-- A reference and a stray ampersand. -/
theorem sanitizeOmml_less_than :
    Spells "lt" '<' ∧ (∀ v, CodePoint.ofChar '&' :: v <:+ sanitizeOmml "a&lt;b&c" → StartsXmlReference v) ∧
      ∃ mend : Text → Text, (mend = id ∨ mend = dropSurrogates) ∧
        Text.sanitize "a&lt;b&c" = (mend "a").sanitize ++ (writeReference "lt" ++ (mend "b&c").sanitize) ∧
        (sanitizeOmml "a&lt;b&c" = sanitizeOmml (mend "a") ++ (writeReference "lt" ++ sanitizeOmml (mend "b&c")) ∨
          ∃ before old rest, Deletes skipDeclaration? (Text.sanitize "a&lt;b&c") before old rest ∧
            before.length < (mend "a").sanitize.length ∧
            (mend "a").sanitize.length + (writeReference "lt").length < before.length + old.length) := by
  have hbody : Spells "lt" '<' := .name (by decide)
  obtain ⟨hlegal, hkept⟩ := sanitizeOmml_references "a&lt;b&c"
  refine ⟨hbody, hlegal.2 fun body rest hsuffix hodd => ?_, hkept "a" "lt" '<' "b&c" hbody rfl⟩
  have hsign : CodePoint.ofChar '#' ∈ withoutDeclarations "a&lt;b&c" :=
    hsuffix.subset (List.mem_cons_of_mem _ (List.mem_append_left _ hodd.sign_mem))
  exact absurd hsign (by decide +kernel)

/-- The number zero, and a digit that XML does not know: both are left in the markup as if they were references. -/
theorem sanitizeOmml_odd_numbers :
    sanitizeOmml "&#0;" = "&#0;" ∧ ¬ StartsXmlReference "#0;" ∧ sanitizeOmml "&#٣;" = "&#٣;" ∧ ¬ StartsXmlReference "#٣;" := by
  simp only [startsXmlReference_iff]
  decide +kernel

end EquationExport.Splice
