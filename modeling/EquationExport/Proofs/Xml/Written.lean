import EquationExport.Proofs.Text.Occurrence
import EquationExport.Xml.Reader
import EquationExport.Xml.Writer

/-!
# Tags that are read as they were written

A recogniser that is given what the writer wrote gives back what was written: names, values behind their
references, attributes, opening and closing tags. What follows a name must not go on with it.
-/

namespace EquationExport.Xml

/-! ### Names -/

/-- A name without a colon. -/
def isName (t : Text) : Bool := t.head?.any (·.isNameStart) && t.all (·.isNamePart)

/-- A name with or without a qualifier. -/
def isQualifiedName (name : WrittenName) : Bool := name.1.all isName && isName name.2

/-- A name as it is looked for in a tag. -/
abbrev Name.parts (name : Name) : WrittenName := (name.qualifier, name.localPart)

/-- The text does not go on with a name. -/
def endsName (s : Text) : Bool := s.head?.all fun (c : CodePoint) => !c.isNamePart && c != ':'

variable {t s : Text} {name : Name}

theorem exists_cons_of_isName (h : isName t = true) :
    ∃ c rest, t = c :: rest ∧ c.isNameStart = true ∧ ∀ d ∈ t, d.isNamePart = true := by
  cases t with
  | nil => cases h
  | cons c rest =>
    obtain ⟨hstart, hparts⟩ := Bool.and_eq_true_iff.1 h
    exact ⟨c, rest, rfl, by simpa using hstart, List.all_eq_true.1 hparts⟩

theorem isNamePart_of_isNameStart {c : CodePoint} (h : c.isNameStart = true) : c.isNamePart = true := by
  simp [CodePoint.isNamePart, h]

theorem isBlank_of_isNameStart {c : CodePoint} (h : c.isNameStart = true) : c.isBlank = false := by
  rw [← Bool.not_eq_true]
  intro hblank
  simp only [CodePoint.isBlank, Bool.or_eq_true, beq_iff_eq] at hblank
  rcases hblank with ((rfl | rfl) | rfl) | rfl <;> exact absurd h (by decide)

theorem plainName?_append (ht : isName t = true) (hs : ∀ c ∈ s.head?, c.isNamePart = false) :
    plainName? (t ++ s) = some (t, s) := by
  obtain ⟨c, rest, rfl, hstart, hparts⟩ := exists_cons_of_isName ht
  have hstop : s.takeWhile (·.isNamePart) = [] ∧ s.dropWhile (·.isNamePart) = s := by
    cases s with
    | nil => exact ⟨rfl, rfl⟩
    | cons d s => simp [hs d (by simp)]
  rw [List.cons_append, plainName?, if_pos hstart, Text.span, ← List.cons_append,
    List.takeWhile_append_of_pos hparts, List.dropWhile_append_of_pos hparts, hstop.1, hstop.2, List.append_nil]

theorem plainName?_eq_some {rest : Text} (h : plainName? s = some (t, rest)) : isName t = true ∧ s = t ++ rest := by
  unfold plainName? at h
  split at h
  · next c s =>
    split at h
    · next hstart =>
      obtain ⟨rfl, rfl⟩ := Prod.mk.inj (Option.some.inj h)
      refine ⟨Bool.and_eq_true_iff.2 ⟨?_, List.all_eq_true.2 fun d hd => ?_⟩, List.takeWhile_append_dropWhile.symm⟩
      · rw [List.takeWhile_cons_of_pos (isNamePart_of_isNameStart hstart)]
        simpa using hstart
      · exact List.all_eq_true.1 List.all_takeWhile d hd
    · cases h
  · cases h

/-- A name is read back, if what follows does not go on with it. -/
theorem qualifiedName?_written (hname : isQualifiedName name.parts = true) (hs : endsName s = true) :
    qualifiedName? (name.written ++ s) = some (name.parts, s) := by
  obtain ⟨hqualifier, hlocal⟩ := Bool.and_eq_true_iff.1 hname
  have hend : ∀ c ∈ s.head?, c.isNamePart = false ∧ c ≠ ':' := by
    intro c hc
    cases s with
    | nil => cases hc
    | cons d s =>
      obtain rfl : d = c := by simpa using hc
      simpa [endsName] using hs
  have hcolon : s.dropPrefix? ":" = none ∧ s.startsWith ":" = false := by
    have hdrop : s.dropPrefix? ":" = none := by
      cases s with
      | nil => rfl
      | cons c s =>
        rw [show (":" : Text) = [(':' : CodePoint)] from rfl, Text.dropPrefix?, if_neg (hend c (by simp)).2]
    exact ⟨hdrop, by rw [Text.startsWith, hdrop]; rfl⟩
  obtain ⟨qualifier, space, localPart⟩ := name
  cases qualifier with
  | none =>
    have hplain : plainName? (localPart ++ s) = some (localPart, s) := plainName?_append hlocal fun c hc => (hend c hc).1
    rw [Name.written, qualifiedName?, hplain]
    dsimp only
    rw [hcolon.1]
  | some q =>
    have hq : plainName? (q ++ (":" ++ (localPart ++ s))) = some (q, ":" ++ (localPart ++ s)) := by
      refine plainName?_append (by simpa using hqualifier) fun c hc => ?_
      obtain rfl : (':' : CodePoint) = c := Option.some.inj hc
      decide
    have hplain : plainName? (localPart ++ s) = some (localPart, s) := plainName?_append hlocal fun c hc => (hend c hc).1
    have hwritten : (Name.mk (some q) space localPart).written ++ s = q ++ (":" ++ (localPart ++ s)) := by
      simp [Name.written, List.append_assoc]
    rw [hwritten, qualifiedName?, hq]
    dsimp only
    rw [Text.dropPrefix?_append]
    dsimp only
    rw [hplain]
    dsimp only
    rw [hcolon.2]
    rfl

theorem isQualifiedName_of_qualifiedName? {written : WrittenName} {rest : Text}
    (h : qualifiedName? s = some (written, rest)) : isQualifiedName written = true := by
  unfold qualifiedName? at h
  split at h
  · cases h
  · next first behind hfirst =>
    have hname := (plainName?_eq_some hfirst).1
    split at h
    · obtain ⟨rfl, -⟩ := Prod.mk.inj (Option.some.inj h)
      simpa [isQualifiedName] using hname
    · split at h
      · cases h
      · next second behind' hsecond =>
        split at h
        · cases h
        · obtain ⟨rfl, -⟩ := Prod.mk.inj (Option.some.inj h)
          simp [isQualifiedName, hname, (plainName?_eq_some hsecond).1]

/-- A written name starts with a character that starts names. -/
theorem exists_cons_of_written (hname : isQualifiedName name.parts = true) :
    ∃ c rest, name.written = c :: rest ∧ c.isNameStart = true := by
  obtain ⟨hqualifier, hlocal⟩ := Bool.and_eq_true_iff.1 hname
  obtain ⟨qualifier, space, localPart⟩ := name
  cases qualifier with
  | none =>
    obtain ⟨c, rest, hc, hstart, -⟩ := exists_cons_of_isName hlocal
    exact ⟨c, rest, hc, hstart⟩
  | some q =>
    obtain ⟨c, rest, rfl, hstart, -⟩ := exists_cons_of_isName (by simpa using hqualifier : isName q = true)
    exact ⟨c, rest ++ (":" ++ localPart), by simp [Name.written, List.append_assoc], hstart⟩

/-! ### References -/

/-- A character that is written as a reference in a value, and the reference behind the ampersand. -/
def valueReferences : List (CodePoint × Text) :=
  [('&', "amp;"), ('<', "lt;"), ('>', "gt;"), ('"', "quot;"), ('\t', "#9;"), ('\n', "#10;"), ('\r', "#13;")]

/-- Each reference is read as its character. -/
theorem reference?_append {pair : CodePoint × Text} (h : pair ∈ valueReferences) (s : Text) :
    reference? (pair.2 ++ s) = some (pair.1, s) := by
  have hall : ∀ pair ∈ valueReferences, ∃ body : Text, pair.2 = body ++ [(';' : CodePoint)] ∧ (';' : CodePoint) ∉ body ∧
      reference? (body ++ [(';' : CodePoint)]) = some (pair.1, []) := by
    intro pair hpair
    simp only [valueReferences, List.mem_cons, List.not_mem_nil, or_false] at hpair
    rcases hpair with rfl | rfl | rfl | rfl | rfl | rfl | rfl
    · exact ⟨"amp", by decide, by decide, by decide⟩
    · exact ⟨"lt", by decide, by decide, by decide⟩
    · exact ⟨"gt", by decide, by decide, by decide⟩
    · exact ⟨"quot", by decide, by decide, by decide⟩
    · exact ⟨"#9", by decide, by decide, by decide⟩
    · exact ⟨"#10", by decide, by decide, by decide⟩
    · exact ⟨"#13", by decide, by decide, by decide⟩
  obtain ⟨body, hbody, hnot, hread⟩ := hall pair h
  have hbreak : ∀ rest, (body ++ (';' : CodePoint) :: rest).breakOn? ";" = some (body, rest) := fun rest =>
    Text.breakOn?_of_not_mem hnot
  have hs : pair.2 ++ s = body ++ (';' : CodePoint) :: s := by rw [hbody, List.append_assoc]; rfl
  unfold reference? at hread ⊢
  rw [hs, hbreak]
  rw [show body ++ [(';' : CodePoint)] = body ++ (';' : CodePoint) :: [] from rfl, hbreak] at hread
  dsimp only at hread ⊢
  obtain ⟨c, hc, heq⟩ := Option.map_eq_some_iff.1 hread
  rw [hc, ← (Prod.mk.inj heq).1]
  rfl

/-! ### Values -/

/-- A character of a value stands for itself or is written as a reference. -/
theorem escapeValuePoint_cases (c : CodePoint) :
    (∃ pair ∈ valueReferences, c = pair.1 ∧ escapeValuePoint c = ('&' : CodePoint) :: pair.2) ∨
      (escapeValuePoint c = [c] ∧ c ≠ '&' ∧ c ≠ '<' ∧ c ≠ '>' ∧ c ≠ '"' ∧ c ≠ '\t' ∧ c ≠ '\n' ∧ c ≠ '\r') := by
  unfold escapeValuePoint
  split
  · next h => exact .inl ⟨('&', "amp;"), by simp [valueReferences], h, rfl⟩
  · split
    · next h => exact .inl ⟨('<', "lt;"), by simp [valueReferences], h, rfl⟩
    · split
      · next h => exact .inl ⟨('>', "gt;"), by simp [valueReferences], h, rfl⟩
      · split
        · next h => exact .inl ⟨('"', "quot;"), by simp [valueReferences], h, rfl⟩
        · split
          · next h => exact .inl ⟨('\t', "#9;"), by simp [valueReferences], h, rfl⟩
          · split
            · next h => exact .inl ⟨('\n', "#10;"), by simp [valueReferences], h, rfl⟩
            · split
              · next h => exact .inl ⟨('\r', "#13;"), by simp [valueReferences], h, rfl⟩
              · exact .inr ⟨rfl, by assumption, by assumption, by assumption, by assumption, by assumption,
                  by assumption, by assumption⟩

/-- In a value that is written stands no quote. -/
theorem quote_not_mem_escapeValue (v : Text) : ('"' : CodePoint) ∉ escapeValue v := by
  have hall : ∀ pair ∈ valueReferences, ('"' : CodePoint) ∉ (('&' : CodePoint) :: pair.2) := by decide
  intro hmem
  obtain ⟨c, -, hc⟩ := List.mem_flatMap.1 hmem
  rcases escapeValuePoint_cases c with ⟨pair, hpair, -, heq⟩ | ⟨heq, -, -, -, hquote, -⟩
  · exact hall pair hpair (heq ▸ hc)
  · rw [heq, List.mem_singleton] at hc
    exact hquote hc.symm

theorem splitOn_append {sep : CodePoint} {a s first : Text} {pieces : List Text} (ha : sep ∉ a)
    (h : Text.splitOn sep s = first :: pieces) : Text.splitOn sep (a ++ s) = (a ++ first) :: pieces := by
  induction a with
  | nil => exact h
  | cons c a ih =>
    rw [List.mem_cons, not_or] at ha
    rw [List.cons_append, Text.splitOn, ih ha.2, List.cons_append]
    exact if_neg (Ne.symm ha.1)

theorem valueText?_cons {c : CodePoint} {first u : Text} (hlegal : c.isXml = true)
    (hplain : c ≠ '<' ∧ c ≠ '\t' ∧ c ≠ '\n' ∧ c ≠ '\r') (h : valueText? first = some u) :
    valueText? (c :: first) = some (c :: u) := by
  obtain ⟨hlt, htab, hline, hreturn⟩ := hplain
  unfold valueText? at h ⊢
  split at h
  · next hfirst =>
    obtain ⟨hfirstlegal, hfirstlt⟩ := Bool.and_eq_true_iff.1 hfirst
    have hboth : (isLegal (c :: first) && !Text.containsPoint (c :: first) '<') = true := by
      have hne : ((('<' : CodePoint) == c) : Bool) = false := beq_eq_false_iff_ne.2 (Ne.symm hlt)
      have hcontains : Text.containsPoint (c :: first) '<' = Text.containsPoint first '<' := by
        rw [Text.containsPoint, List.elem_cons, hne]
        rfl
      rw [hcontains, hfirstlt, Bool.and_true, isLegal, List.all_cons, hlegal, Bool.true_and]
      exact hfirstlegal
    have hblank : (if c.isBlank = true then (' ' : CodePoint) else c) = c := by
      split
      · next hblank =>
        simp only [CodePoint.isBlank, Bool.or_eq_true, beq_iff_eq] at hblank
        rcases hblank with ((hc | hc) | hc) | hc
        · exact hc.symm
        · exact absurd hc htab
        · exact absurd hc hline
        · exact absurd hc hreturn
      · rfl
    rw [if_pos hboth, normalizeLineEnds, if_neg hreturn, List.map_cons, hblank, Option.some.inj h]
  · cases h

/-- A value is read as it was written. -/
theorem value?_escapeValue (v : Text) (h : isLegal v = true) : value? (escapeValue v) = some v := by
  suffices hpieces : ∃ first pieces u us, Text.splitOn '&' (escapeValue v) = first :: pieces ∧
      valueText? first = some u ∧ pieces.mapM valuePiece? = some us ∧ v = u ++ us.flatten by
    obtain ⟨first, pieces, u, us, hsplit, hfirst, hrest, rfl⟩ := hpieces
    simp [value?, hsplit, hfirst, hrest]
  induction v with
  | nil => exact ⟨[], [], [], [], rfl, rfl, rfl, rfl⟩
  | cons c v ih =>
    simp only [isLegal, List.all_cons, Bool.and_eq_true] at h
    obtain ⟨hc, hv⟩ := h
    obtain ⟨first, pieces, u, us, hsplit, hfirst, hrest, hvalue⟩ := ih hv
    have hescape : escapeValue (c :: v) = escapeValuePoint c ++ escapeValue v := rfl
    rcases escapeValuePoint_cases c with ⟨pair, hpair, rfl, heq⟩ | ⟨heq, hamp, hlt, hgt, hquote, htab, hline, hreturn⟩
    · have hnot : ∀ pair ∈ valueReferences, ('&' : CodePoint) ∉ pair.2 := by decide
      have hbehind := splitOn_append (hnot pair hpair) hsplit
      refine ⟨[], (pair.2 ++ first) :: pieces, [], (pair.1 :: u) :: us, ?_, rfl, ?_, ?_⟩
      · rw [hescape, heq, List.cons_append, Text.splitOn, hbehind]
        rfl
      · have hpiece : valuePiece? (pair.2 ++ first) = some (pair.1 :: u) := by
          rw [valuePiece?, reference?_append hpair]
          simp [hfirst]
        simp [hpiece, hrest]
      · simp [hvalue]
    · refine ⟨c :: first, pieces, c :: u, us, ?_, valueText?_cons hc ⟨hlt, htab, hline, hreturn⟩ hfirst, hrest, ?_⟩
      · rw [hescape, heq]
        exact splitOn_append (by simpa using Ne.symm hamp) hsplit
      · rw [hvalue]
        rfl

/-! ### Tags -/

/-- The attribute can be read back. -/
def Attribute.isReadable (a : Attribute) : Bool := isQualifiedName a.name.parts && isLegal a.value

theorem attribute?_write {a : Attribute} (h : a.isReadable = true) (s : Text) :
    attribute? (a.name.written ++ ("=\"" ++ (escapeValue a.value ++ ('"' : CodePoint) :: s))) =
      some ((a.name.parts, a.value), s) := by
  obtain ⟨hname, hvalue⟩ := Bool.and_eq_true_iff.1 h
  have hends : endsName ("=\"" ++ (escapeValue a.value ++ ('"' : CodePoint) :: s)) = true :=
    show Option.all _ (some ('=' : CodePoint)) = true by decide
  have hfirst := qualifiedName?_written hname hends
  have hequals : Text.dropPrefix? (List.dropWhile (·.isBlank) ("=\"" ++ (escapeValue a.value ++ ('"' : CodePoint) :: s))) "=" =
      some (('"' : CodePoint) :: (escapeValue a.value ++ ('"' : CodePoint) :: s)) := by
    rw [show ("=\"" : Text) ++ (escapeValue a.value ++ ('"' : CodePoint) :: s) =
      ("=" : Text) ++ ('"' : CodePoint) :: (escapeValue a.value ++ ('"' : CodePoint) :: s) from rfl]
    exact Text.dropPrefix?_append "=" _
  have hquote : Text.dropOneOf? (List.dropWhile (·.isBlank) (('"' : CodePoint) :: (escapeValue a.value ++ ('"' : CodePoint) :: s)))
      [("\"" : Text), ("'" : Text)] = some (("\"" : Text), escapeValue a.value ++ ('"' : CodePoint) :: s) := by
    have hblank : ¬ ('"' : CodePoint).isBlank = true := by decide
    rw [List.dropWhile_cons_of_neg hblank, Text.dropOneOf?,
      show (('"' : CodePoint) :: (escapeValue a.value ++ ('"' : CodePoint) :: s)) =
        ("\"" : Text) ++ (escapeValue a.value ++ ('"' : CodePoint) :: s) from rfl, Text.dropPrefix?_append]
  have hbreak : Text.breakOn? (escapeValue a.value ++ ('"' : CodePoint) :: s) "\"" = some (escapeValue a.value, s) :=
    Text.breakOn?_of_not_mem (quote_not_mem_escapeValue a.value)
  simp only [attribute?, hfirst, Option.bind_eq_bind, Option.bind_some, hequals]
  rw [hquote]
  simp only [Option.bind_some, hbreak, value?_escapeValue a.value hvalue]

/-- The end of an opening tag. -/
def tagEnd (closed : Bool) : Text := if closed then "/>" else ">"

theorem write_attribute_append (a : Attribute) (s : Text) :
    a.write ++ s = (' ' : CodePoint) :: (a.name.written ++ ("=\"" ++ (escapeValue a.value ++ ('"' : CodePoint) :: s))) := by
  simp only [Attribute.write, writeValue, List.append_assoc]
  rfl

theorem attributes?_tagEnd (fuel : Nat) (closed : Bool) (s : Text) :
    attributes? (fuel + 1) (tagEnd closed ++ s) = some (([], closed), s) := by
  cases closed with
  | false =>
    have hdrop : Text.dropPrefix? (List.dropWhile (·.isBlank) (tagEnd false ++ s)) ">" = some s :=
      Text.dropPrefix?_append ">" s
    simp only [attributes?, hdrop]
  | true =>
    have hnot : Text.dropPrefix? (List.dropWhile (·.isBlank) (tagEnd true ++ s)) ">" = none := rfl
    have hdrop : Text.dropPrefix? (List.dropWhile (·.isBlank) (tagEnd true ++ s)) "/>" = some s :=
      Text.dropPrefix?_append "/>" s
    simp only [attributes?, hnot, hdrop]

theorem attributes?_write {attributes : List Attribute} (h : attributes.all (·.isReadable) = true) (closed : Bool)
    (s : Text) {fuel : Nat} (hfuel : attributes.length < fuel) :
    attributes? fuel (attributes.flatMap (·.write) ++ (tagEnd closed ++ s)) =
      some ((attributes.map fun a => (a.name.parts, a.value), closed), s) := by
  induction attributes generalizing fuel with
  | nil =>
    obtain ⟨fuel, rfl⟩ := Nat.exists_eq_add_one_of_ne_zero (Nat.ne_of_gt hfuel)
    exact attributes?_tagEnd fuel closed s
  | cons a attributes ih =>
    obtain ⟨fuel, rfl⟩ := Nat.exists_eq_add_one_of_ne_zero (Nat.ne_of_gt (Nat.zero_lt_of_lt hfuel))
    rw [List.all_cons, Bool.and_eq_true] at h
    obtain ⟨ha, hrest⟩ := h
    obtain ⟨c, tail, hwritten, hstart⟩ := exists_cons_of_written (Bool.and_eq_true_iff.1 ha).1
    let behind : Text := attributes.flatMap (·.write) ++ (tagEnd closed ++ s)
    have hs : (a :: attributes).flatMap (·.write) ++ (tagEnd closed ++ s) = (' ' : CodePoint) :: (a.name.written ++
        ("=\"" ++ (escapeValue a.value ++ ('"' : CodePoint) :: behind))) := by
      rw [List.flatMap_cons, List.append_assoc, write_attribute_append]
    have hblank := isBlank_of_isNameStart hstart
    have hdrop : List.dropWhile (·.isBlank) ((' ' : CodePoint) :: (a.name.written ++
        ("=\"" ++ (escapeValue a.value ++ ('"' : CodePoint) :: behind)))) =
        a.name.written ++ ("=\"" ++ (escapeValue a.value ++ ('"' : CodePoint) :: behind)) := by
      rw [List.dropWhile_cons_of_pos (by decide), hwritten, List.cons_append, List.dropWhile_cons_of_neg (by simp [hblank])]
    have hend : Text.dropPrefix? (a.name.written ++ ("=\"" ++ (escapeValue a.value ++ ('"' : CodePoint) :: behind))) ">" = none ∧
        Text.dropPrefix? (a.name.written ++ ("=\"" ++ (escapeValue a.value ++ ('"' : CodePoint) :: behind))) "/>" = none := by
      rw [hwritten, List.cons_append]
      have hne : c ≠ '>' ∧ c ≠ '/' := by
        constructor <;> rintro rfl <;> exact absurd hstart (by decide)
      constructor
      · rw [show (">" : Text) = [('>' : CodePoint)] from rfl, Text.dropPrefix?, if_neg hne.1]
      · rw [show ("/>" : Text) = [('/' : CodePoint), '>'] from rfl, Text.dropPrefix?, if_neg hne.2]
    have hattribute := attribute?_write ha behind
    have hothers : attributes? fuel behind = _ := ih hrest (by simpa using hfuel)
    rw [hs, attributes?]
    dsimp only
    rw [hdrop, hend.1, hend.2]
    have hspace : (' ' : CodePoint).isBlank = true := by decide
    simp only [List.head?_cons, Option.any_some, hspace, if_true]
    simp only [hattribute, Option.bind_eq_bind, Option.bind_some, hothers, List.map_cons]

/-- The tag can be read back: it declares nothing, and its names and values can be read. -/
structure Tag.IsReadable (tag : Tag) : Prop where
  name : isQualifiedName tag.name.parts = true
  attributes : tag.attributes.all (·.isReadable) = true
  declarations : tag.declarations = []

/-- What a tag says, as it is read. -/
def Tag.asWritten (tag : Tag) (closed : Bool) : WrittenTag :=
  ⟨tag.name.parts, tag.attributes.map fun a => (a.name.parts, a.value), closed⟩

theorem length_le_flatMap_write (attributes : List Attribute) :
    attributes.length ≤ (attributes.flatMap (·.write)).length := by
  induction attributes with
  | nil => exact Nat.le_refl _
  | cons a attributes ih =>
    have hone : 1 ≤ a.write.length := by
      have := congrArg List.length (write_attribute_append a [])
      rw [List.append_nil, List.length_cons] at this
      omega
    rw [List.flatMap_cons, List.length_append, List.length_cons]
    omega

/-- An opening tag is read as it was written. -/
theorem openingTag?_write {tag : Tag} (h : tag.IsReadable) (closed : Bool) (s : Text) :
    openingTag? (tag.write ++ (tagEnd closed ++ s)) = some (tag.asWritten closed, s) := by
  have hs : tag.write ++ (tagEnd closed ++ s) =
      tag.name.written ++ (tag.attributes.flatMap (·.write) ++ (tagEnd closed ++ s)) := by
    rw [Tag.write, h.declarations, List.flatMap_nil, List.append_nil, List.append_assoc]
  have hends : endsName (tag.attributes.flatMap (·.write) ++ (tagEnd closed ++ s)) = true := by
    cases tag.attributes with
    | nil => cases closed <;> rfl
    | cons a attributes =>
      rw [List.flatMap_cons, List.append_assoc, write_attribute_append]
      rfl
  have hname := qualifiedName?_written h.name hends
  have hfuel : tag.attributes.length < (tag.attributes.flatMap (·.write) ++ (tagEnd closed ++ s)).length + 1 := by
    have := length_le_flatMap_write tag.attributes
    rw [List.length_append]
    omega
  have hattributes := attributes?_write h.attributes closed s hfuel
  simp only [openingTag?, hs, hname, Option.bind_eq_bind, Option.bind_some, hattributes, Tag.asWritten]

theorem closingTag?_written (hname : isQualifiedName name.parts = true) (s : Text) :
    closingTag? (name.written ++ (">" ++ s)) = some (name.parts, s) := by
  have hread := qualifiedName?_written hname (show endsName (">" ++ s) = true from rfl)
  have hdrop : Text.dropPrefix? (List.dropWhile (·.isBlank) (">" ++ s)) ">" = some s := Text.dropPrefix?_append ">" s
  simp only [closingTag?, hread, Option.bind_eq_bind, Option.bind_some, hdrop]

end EquationExport.Xml
