import EquationExport.Mathml.Clean
import EquationExport.Proofs.Mathml.Content
import EquationExport.Proofs.Text.Occurrence

/-!
# Tags in what is written of content

A search for the tags of a name finds, in what is written of content, the tags of the elements of that name: a name ends
where a tag says that it ends, and all names are in small letters, so that case does not matter. The one name that
starts another one is `annotation`, and it is not looked for before the elements `annotation-xml` are gone. Elements
that are not nested in one another are found with all they hold.
-/

namespace EquationExport.Mathml

variable {content children : Content} {name target s r : Text} {attributes : Attributes}

/-! ### Letters -/

theorem isSmall_iff {c : CodePoint} : isSmall c = true ↔ 0x61 ≤ c.val ∧ c.val ≤ 0x7A := by
  simp [isSmall, CodePoint.inRange]

theorem isWord_of_isSmall {c : CodePoint} (h : isSmall c = true) : c.isWord = true := by
  have hrange := isSmall_iff.1 h
  have hascii : c.val < 0x80 := by omega
  rw [CodePoint.isWord, CodePoint.isAlphanumeric, if_pos hascii, show c.inRange 0x61 0x7A = true from h]
  simp

theorem caseless_of_lt {c : CodePoint} (h : c.val < 0x80) (hcapital : ¬ (0x41 ≤ c.val ∧ c.val ≤ 0x5A)) : c.caseless = c := by
  have hodd : (c.val == 0x130 || c.val == 0x131) = false ∧ (c.val == 0x17F) = false ∧ (c.val == 0x212A) = false := by
    simp only [Bool.or_eq_false_iff, beq_eq_false_iff_ne]
    omega
  have hrange : c.inRange 0x41 0x5A = false := by simpa [CodePoint.inRange] using hcapital
  simp [CodePoint.caseless, CodePoint.asciiLower, hodd, hrange]

theorem caseless_of_isSmall {c : CodePoint} (h : isSmall c = true) : c.caseless = c := by
  have hrange := isSmall_iff.1 h
  exact caseless_of_lt (by omega) (by omega)

/-- No character but itself becomes an angle bracket with case put aside. -/
theorem eq_of_caseless_eq {c d : CodePoint} (hd : d.val < 0x41) (h : c.caseless = d) : c = d := by
  unfold CodePoint.caseless CodePoint.asciiLower at h
  have hletter : ∀ x ∈ ("isk" : Text), 0x41 ≤ x.val := by decide
  split at h
  · exact absurd (h ▸ hletter 'i' (by decide)) (by omega)
  · split at h
    · exact absurd (h ▸ hletter 's' (by decide)) (by omega)
    · split at h
      · exact absurd (h ▸ hletter 'k' (by decide)) (by omega)
      · split at h
        · next hcapital =>
          simp only [CodePoint.inRange, Bool.and_eq_true, decide_eq_true_eq] at hcapital
          rw [← h, CodePoint.val_ofNat (by omega)] at hd
          omega
        · exact h

/-! ### Names in tags -/

/-- A character of a name: a small letter or the hyphen. -/
theorem isSmall_or_eq_of_mem (h : isElementName name = true) {c : CodePoint} (hc : c ∈ name) : isSmall c = true ∨ c = '-' := by
  by_contra hnot
  rw [not_or, Bool.not_eq_true] at hnot
  exact not_mem_elementName h hnot.1 hnot.2 hc

theorem caseless_of_mem (h : isElementName name = true) {c : CodePoint} (hc : c ∈ name) : c.caseless = c := by
  rcases isSmall_or_eq_of_mem h hc with hsmall | rfl
  · exact caseless_of_isSmall hsmall
  · decide

/-- What ends the name in a tag: the space before an attribute, or the end of the tag. -/
def EndsName (tail : Text) : Prop := ∃ d more, tail = d :: more ∧ (d = ' ' ∨ d = '>')

theorem EndsName.atWordEnd {tail : Text} (h : EndsName tail) : tail.atWordEnd = true := by
  obtain ⟨d, more, rfl, hd⟩ := h
  have hword : ∀ d ∈ (" >" : Text), d.isWord = false := by decide
  have hmem : d ∈ (" >" : Text) := by rcases hd with rfl | rfl <;> decide
  simp [Text.atWordEnd, hword d hmem]

theorem endsName_attributes (attributes : Attributes) (s : Text) :
    EndsName (attributes.flatMap writeAttribute ++ (">" ++ s)) := by
  cases attributes with
  | nil => exact ⟨'>', s, rfl, .inr rfl⟩
  | cons a as => exact ⟨' ', _, rfl, .inl rfl⟩

/-- One name in front of the end of another is the other, if no more of a word follows; the one exception is an annotation. -/
theorem eq_of_append_eq (hname : isElementName name = true) (htarget : isElementName target = true)
    (hne : name = "annotation-xml" → target ≠ "annotation") {tail : Text} (htail : EndsName tail)
    (h : name ++ tail = target ++ r) (hend : r.atWordEnd = true) : name = target ∧ r = tail := by
  rcases List.append_eq_append_iff.1 h with ⟨more, rfl, rfl⟩ | ⟨more, rfl, rfl⟩
  · -- the end of the name would be in the target
    obtain ⟨d, behind, hd, hends⟩ := htail
    cases more with
    | nil => exact ⟨(List.append_nil _).symm, rfl⟩
    | cons c more =>
      obtain ⟨rfl, -⟩ := List.cons.inj hd
      have hmem := isSmall_or_eq_of_mem htarget (c := c) (by simp)
      rcases hends with rfl | rfl <;> exact absurd hmem (by decide)
  · cases more with
    | nil => exact ⟨List.append_nil _, rfl⟩
    | cons c more =>
      -- the word ends in the middle of the name, which only a hyphen can do
      have hnot : c.isWord = false := by simpa [Text.atWordEnd] using hend
      obtain rfl : c = '-' := by
        rcases isSmall_or_eq_of_mem hname (c := c) (by simp) with hsmall | heq
        · rw [isWord_of_isSmall hsmall] at hnot
          cases hnot
        · exact heq
      have hxml : target ++ ('-' : CodePoint) :: more = "annotation-xml" := by
        rcases Bool.or_eq_true_iff.1 hname with heq | hall
        · exact beq_iff_eq.1 heq
        · exact absurd (List.all_eq_true.1 (Bool.and_eq_true_iff.1 hall).2 '-' (by simp)) (by decide)
      have hhyphen : ('-' : CodePoint) ∉ target := by
        intro hmem
        rcases Bool.or_eq_true_iff.1 htarget with heq | hall
        · have hlength := congrArg List.length hxml
          rw [beq_iff_eq.1 heq, List.length_append, List.length_cons] at hlength
          omega
        · exact absurd (List.all_eq_true.1 (Bool.and_eq_true_iff.1 hall).2 '-' hmem) (by decide)
      have hsplit : target ++ ('-' : CodePoint) :: more = ("annotation" : Text) ++ ('-' : CodePoint) :: ("xml" : Text) := hxml
      exact absurd (Text.append_cons_inj hsplit hhyphen (by decide)).1 (hne hxml)

theorem skipWord?_eq_some_iff {start : Text} : skipWord? s start = some r ↔ s = start ++ r ∧ r.atWordEnd = true := by
  rw [skipWord?, ← Text.dropPrefix?_eq_some_iff]
  cases s.dropPrefix? start with
  | none => simp
  | some rest =>
    rw [Option.ite_none_right_eq_some, Option.some_inj, and_comm]
    exact and_congr_right fun h => by rw [h]

/-- A name is found where it stands with its end behind it, and nowhere else. -/
theorem skipWord?_name (hname : isElementName name = true) (htarget : isElementName target = true)
    (hne : name = "annotation-xml" → target ≠ "annotation") {tail : Text} (htail : EndsName tail) :
    skipWord? (name ++ tail) target = if name = target then some tail else none := by
  split
  · next heq => exact skipWord?_eq_some_iff.2 ⟨by rw [heq], htail.atWordEnd⟩
  · next hother =>
    refine Option.eq_none_iff_forall_ne_some.2 fun r hr => ?_
    obtain ⟨happend, hend⟩ := skipWord?_eq_some_iff.1 hr
    exact hother (eq_of_append_eq hname htarget hne htail happend hend).1

/-- Where no character has another case, case does not matter. -/
theorem dropPrefixCaseless?_eq {u pre post more : Text} {d : CodePoint} (hu : ∀ c ∈ u, c.caseless = c) (hd : d.caseless = d)
    (hpre : ∀ p ∈ pre, p.caseless = p ∧ p ≠ d) (hpost : post = [] ∨ post = [d]) :
    Text.dropPrefixCaseless? (u ++ d :: more) (pre ++ post) = Text.dropPrefix? (u ++ d :: more) (pre ++ post) := by
  induction pre generalizing u with
  | nil =>
    rcases hpost with rfl | rfl
    · cases u <;> rfl
    · cases u with
      | nil => simp [Text.dropPrefixCaseless?, Text.dropPrefix?]
      | cons c u =>
        have hc := hu c List.mem_cons_self
        simp [Text.dropPrefixCaseless?, Text.dropPrefix?, hc, hd]
  | cons p pre ih =>
    obtain ⟨hp, hpd⟩ := hpre p List.mem_cons_self
    have hrest : ∀ q ∈ pre, q.caseless = q ∧ q ≠ d := fun q hq => hpre q (List.mem_cons_of_mem _ hq)
    cases u with
    | nil =>
      rw [List.nil_append, List.cons_append, Text.dropPrefixCaseless?, Text.dropPrefix?, hp, hd,
        if_neg (Ne.symm hpd), if_neg (Ne.symm hpd)]
    | cons c u =>
      have hc := hu c List.mem_cons_self
      have hrec := ih (u := u) (fun x hx => hu x (List.mem_cons_of_mem _ hx)) hrest
      rw [List.cons_append, List.cons_append, Text.dropPrefixCaseless?, Text.dropPrefix?, hp, hc, hrec]

theorem skipWordCaseless?_name (hname : isElementName name = true) (htarget : isElementName target = true) {tail : Text}
    (htail : EndsName tail) : skipWordCaseless? (name ++ tail) target = skipWord? (name ++ tail) target := by
  obtain ⟨d, more, rfl, hd⟩ := htail
  have hcaseless : d.caseless = d := by rcases hd with rfl | rfl <;> decide
  have htargets : ∀ p ∈ target, p.caseless = p ∧ p ≠ d := by
    intro p hp
    refine ⟨caseless_of_mem htarget hp, ?_⟩
    rintro rfl
    rcases hd with rfl | rfl <;> exact absurd (isSmall_or_eq_of_mem htarget hp) (by decide)
  have heq : Text.dropPrefixCaseless? (name ++ d :: more) (target ++ []) = _ :=
    dropPrefixCaseless?_eq (fun c hc => caseless_of_mem hname hc) hcaseless htargets (.inl rfl)
  rw [List.append_nil] at heq
  rw [skipWordCaseless?, skipWord?, heq]

/-! ### Tags -/

theorem openTag_append (name : Text) (attributes : Attributes) (s : Text) : openTag name attributes ++ s =
    ('<' : CodePoint) :: (name ++ (attributes.flatMap writeAttribute ++ (">" ++ s))) := by
  simp [openTag, tagInside]

theorem closeTag_append (name s : Text) : closeTag name ++ s = ('<' : CodePoint) :: ('/' : CodePoint) :: (name ++ (">" ++ s)) := by
  simp [closeTag, Text.ofString]

/-- Behind the attributes a tag ends. -/
theorem tagRest?_attributes (hattributes : ∀ a ∈ attributes, isProperAttribute a = true) (s : Text) :
    tagRest? (attributes.flatMap writeAttribute ++ (">" ++ s)) = some (attributes.flatMap writeAttribute, s) := by
  refine Text.breakOn?_of_not_mem ?_
  simp only [List.mem_flatMap, not_exists, not_and]
  exact fun a ha => (angle_not_mem_writeAttribute (hattributes a ha)).2

theorem skipTagRest?_attributes (hattributes : ∀ a ∈ attributes, isProperAttribute a = true) (s : Text) :
    skipTagRest? (attributes.flatMap writeAttribute ++ (">" ++ s)) = some s := by
  rw [skipTagRest?, tagRest?_attributes hattributes]
  rfl

theorem skipWord?_cons (c : CodePoint) (s start : Text) : skipWord? (c :: s) (c :: start) = skipWord? s start := by
  rw [skipWord?, skipWord?, Text.dropPrefix?, if_pos rfl]

theorem skipWordCaseless?_cons (c : CodePoint) (s start : Text) :
    skipWordCaseless? (c :: s) (c :: start) = skipWordCaseless? s start := by
  rw [skipWordCaseless?, skipWordCaseless?, Text.dropPrefixCaseless?, if_pos rfl]

theorem skipWord?_of_ne {c d : CodePoint} (h : c ≠ d) (s start : Text) : skipWord? (c :: s) (d :: start) = none := by
  rw [skipWord?, Text.dropPrefix?, if_neg h]

/-- An angle bracket and a slash are nothing but themselves, also with case put aside. -/
theorem dropPrefixCaseless?_of_ne {c d : CodePoint} (h : c ≠ d) (hd : d.val < 0x41) (s start : Text) :
    Text.dropPrefixCaseless? (c :: s) (d :: start) = none := by
  rw [Text.dropPrefixCaseless?, if_neg]
  rw [caseless_of_lt (Nat.lt_trans hd (by decide)) (by omega)]
  exact fun heq => h (eq_of_caseless_eq hd heq)

theorem skipWordCaseless?_of_ne {c d : CodePoint} (h : c ≠ d) (hd : d.val < 0x41) (s start : Text) :
    skipWordCaseless? (c :: s) (d :: start) = none := by rw [skipWordCaseless?, dropPrefixCaseless?_of_ne h hd]

/-- A name does not begin with a slash. -/
theorem slash_of_elementName (htarget : isElementName target = true) (s : Text) :
    Text.dropPrefix? (('/' : CodePoint) :: s) target = none ∧ Text.dropPrefixCaseless? (('/' : CodePoint) :: s) target = none := by
  obtain ⟨c, rest, rfl, hc⟩ := exists_cons_of_elementName htarget
  have hne : ('/' : CodePoint) ≠ c := (ne_of_isSmall hc (by decide)).symm
  rw [Text.dropPrefix?, Text.dropPrefixCaseless?, caseless_of_isSmall hc, if_neg hne,
    if_neg (fun heq => hne (show ('/' : CodePoint).caseless = _ from heq))]
  exact ⟨rfl, rfl⟩

/-! ### What is found at a tag -/

theorem skipWord?_closeTag (htarget : isElementName target = true) (name s : Text) :
    skipWord? (closeTag name ++ s) ("<" ++ target) = none := by
  rw [closeTag_append]
  refine (skipWord?_cons _ _ target).trans ?_
  rw [skipWord?, (slash_of_elementName htarget _).1]

theorem skipWordCaseless?_closeTag (htarget : isElementName target = true) (name s : Text) :
    skipWordCaseless? (closeTag name ++ s) ("<" ++ target) = none := by
  rw [closeTag_append]
  refine (skipWordCaseless?_cons _ _ target).trans ?_
  rw [skipWordCaseless?, (slash_of_elementName htarget _).2]

section Found

variable (hname : isElementName name = true) (htarget : isElementName target = true)
  (hne : name = "annotation-xml" → target ≠ "annotation")

include hname htarget hne

theorem skipWord?_openTag (s : Text) : skipWord? (openTag name attributes ++ s) ("<" ++ target) =
    if name = target then some (attributes.flatMap writeAttribute ++ (">" ++ s)) else none := by
  rw [openTag_append]
  exact (skipWord?_cons _ _ _).trans (skipWord?_name hname htarget hne (endsName_attributes attributes s))

theorem skipWordCaseless?_openTag (s : Text) : skipWordCaseless? (openTag name attributes ++ s) ("<" ++ target) =
    if name = target then some (attributes.flatMap writeAttribute ++ (">" ++ s)) else none := by
  have htail := endsName_attributes attributes s
  rw [openTag_append]
  refine (skipWordCaseless?_cons _ _ target).trans ?_
  rw [skipWordCaseless?_name hname htarget htail, skipWord?_name hname htarget hne htail]

theorem skipOpenTag?_openTag (hattributes : ∀ a ∈ attributes, isProperAttribute a = true) (s : Text) :
    skipOpenTag? target (openTag name attributes ++ s) = if name = target then some s else none := by
  rw [skipOpenTag?, skipWord?_openTag hname htarget hne]
  split
  · exact skipTagRest?_attributes hattributes s
  · rfl

theorem skipAnyTag?_openTag (hattributes : ∀ a ∈ attributes, isProperAttribute a = true) (s : Text) :
    skipAnyTag? target (openTag name attributes ++ s) = if name = target then some s else none := by
  have hslash : skipWordCaseless? (openTag name attributes ++ s) ("</" ++ target) = none := by
    obtain ⟨c, rest, rfl, hc⟩ := exists_cons_of_elementName hname
    rw [openTag_append]
    exact (skipWordCaseless?_cons _ _ _).trans (skipWordCaseless?_of_ne (ne_of_isSmall hc (by decide)) (by decide) _ _)
  rw [skipAnyTag?, hslash, skipWordCaseless?_openTag hname htarget hne]
  split
  · exact skipTagRest?_attributes hattributes s
  · rfl

theorem skipAnyTag?_closeTag (s : Text) : skipAnyTag? target (closeTag name ++ s) = if name = target then some s else none := by
  have hend : EndsName (">" ++ s) := ⟨'>', s, rfl, .inr rfl⟩
  have hfound : skipWordCaseless? (closeTag name ++ s) ("</" ++ target) = if name = target then some (">" ++ s) else none := by
    rw [closeTag_append]
    refine ((skipWordCaseless?_cons _ _ (("/" : Text) ++ target)).trans (skipWordCaseless?_cons _ _ target)).trans ?_
    rw [skipWordCaseless?_name hname htarget hend, skipWord?_name hname htarget hne hend]
  rw [skipAnyTag?, hfound, skipWordCaseless?_closeTag htarget]
  split
  · exact skipTagRest?_attributes (fun a ha => absurd ha List.not_mem_nil) s
  · rfl

end Found

theorem skipElement?_closeTag (htarget : isElementName target = true) (name s : Text) :
    skipElement? target (closeTag name ++ s) = none := by rw [skipElement?, skipWordCaseless?_closeTag htarget]

/-- A closing tag, whole, is found where one of the name stands. -/
theorem dropPrefix?_closeTag (hname : isElementName name = true) (htarget : isElementName target = true) (s : Text) :
    Text.dropPrefix? (closeTag name ++ s) ("</" ++ target ++ ">") = if name = target then some s else none := by
  split
  · next h =>
    subst h
    exact Text.dropPrefix?_eq_some_iff.2 (by simp [closeTag])
  · next h =>
    refine Text.dropPrefix?_eq_none_iff.2 ?_
    rintro ⟨rest, hrest⟩
    rw [closeTag, List.append_assoc, List.append_assoc, List.append_assoc, List.append_assoc] at hrest
    exact h (Text.append_cons_inj (List.append_cancel_left hrest) (not_mem_elementName htarget (by decide) (by decide))
      (not_mem_elementName hname (by decide) (by decide))).1.symm

theorem dropPrefixCaseless?_closeTag (hname : isElementName name = true) (htarget : isElementName target = true) (s : Text) :
    Text.dropPrefixCaseless? (closeTag name ++ s) ("</" ++ target ++ ">") = if name = target then some s else none := by
  have htargets : ∀ p ∈ target, p.caseless = p ∧ p ≠ '>' := fun p hp =>
    ⟨caseless_of_mem htarget hp, fun heq => not_mem_elementName htarget (by decide) (by decide) (heq ▸ hp)⟩
  rw [← dropPrefix?_closeTag hname htarget, closeTag_append]
  exact dropPrefixCaseless?_eq (fun c hc => caseless_of_mem hname hc) (by decide) htargets (.inr rfl)

theorem dropPrefix?_openTag (hname : isElementName name = true) (attributes : Attributes) (target s : Text) :
    Text.dropPrefix? (openTag name attributes ++ s) ("</" ++ target ++ ">") = none := by
  obtain ⟨c, rest, rfl, hc⟩ := exists_cons_of_elementName hname
  rw [openTag_append]
  exact (if_pos rfl).trans (if_neg (ne_of_isSmall hc (by decide)))

theorem dropPrefixCaseless?_openTag (hname : isElementName name = true) (attributes : Attributes) (target s : Text) :
    Text.dropPrefixCaseless? (openTag name attributes ++ s) ("</" ++ target ++ ">") = none := by
  obtain ⟨c, rest, rfl, hc⟩ := exists_cons_of_elementName hname
  rw [openTag_append]
  exact (if_pos rfl).trans (dropPrefixCaseless?_of_ne (ne_of_isSmall hc (by decide)) (by decide) _ _)

/-- An element that holds none of its own name is found as a whole. -/
theorem skipElement?_element (htarget : isElementName target = true) (hattributes : ∀ a ∈ attributes, isProperAttribute a = true)
    (hproper : children.Everywhere IsProper) (hlacks : children.Lacks target) (s : Text) :
    skipElement? target (openTag target attributes ++ (children.write ++ (closeTag target ++ s))) = some s := by
  have hne : target = "annotation-xml" → target ≠ "annotation" := by
    rintro rfl
    decide
  have hat : AtTags (Text.dropPrefixCaseless? · ("</" ++ target ++ ">")) := fun c s hc =>
    dropPrefixCaseless?_of_ne hc (by decide) s _
  have htags : ('<' : CodePoint) ∉ attributes.flatMap writeAttribute ++ (">" : Text) := by
    simp only [List.mem_append, List.mem_flatMap, not_or, not_exists, not_and]
    exact ⟨fun a ha => (angle_not_mem_writeAttribute (hattributes a ha)).1, by decide⟩
  -- the search for the closing tag goes over the rest of the opening tag and over the children
  have hchildren := hat.passes_write hproper
    ((hproper.and hlacks).mono fun name attributes _ h =>
      ⟨fun s => dropPrefixCaseless?_openTag h.1.1 attributes target s, fun s => by
        rw [dropPrefixCaseless?_closeTag h.1.1 htarget, if_neg h.2]⟩) (closeTag target ++ s)
  have hclosing : Text.breakAt? (·.dropPrefixCaseless? ("</" ++ target ++ ">")) (closeTag target ++ s) = some ([], s) :=
    Text.breakAt?_of_found ((dropPrefixCaseless?_closeTag htarget htarget s).trans (if_pos rfl))
  rw [skipElement?, skipWordCaseless?_openTag htarget htarget hne, if_pos rfl, ← List.append_assoc]
  dsimp only
  rw [(hat.passes htags _).breakAt?, hchildren.breakAt?, hclosing]
  rfl

theorem skipElement?_openTag (hname : isElementName name = true) (htarget : isElementName target = true)
    (hne : name = "annotation-xml" → target ≠ "annotation") (hother : name ≠ target) (s : Text) :
    skipElement? target (openTag name attributes ++ s) = none := by
  rw [skipElement?, skipWordCaseless?_openTag hname htarget hne, if_neg hother]

end EquationExport.Mathml
