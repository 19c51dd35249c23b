import EquationExport.Mathml.Clean
import EquationExport.Proofs.Mathml.Tags

/-!
# Characters in what is written of content

What is done to single characters is done to the texts and the values alone: the characters of names and of markup are
none of those that the cleaner drops or replaces. References are dropped and replaced as well, but there are none but the
three of the characters of markup, and those are not among them.
-/

namespace EquationExport.Mathml

open Html (escape escapePoint)

variable {content : Content} {name s t : Text} {attributes : Attributes}

/-! ### Changes to one character at a time -/

/-- May stand in a tag, outside the values. -/
def isMarkupPoint (c : CodePoint) : Bool := isAttributePoint c || c ∈ (" <>=\"" : Text)

/-- A change to each character by itself, which leaves those of markup alone. -/
structure Charwise (f : Text → Text) : Prop where
  append : ∀ s t, f (s ++ t) = f s ++ f t
  escape : ∀ t, f (escape t) = escape (f t)
  fixed : ∀ t, (∀ c ∈ t, isMarkupPoint c = true) → f t = t

theorem isMarkupPoint_of_isSmall {c : CodePoint} (h : isSmall c = true) : isMarkupPoint c = true := by
  have hrange := isSmall_iff.1 h
  have hspace : c.isSpace = false := by
    simp only [CodePoint.isSpace, CodePoint.inRange, Bool.or_eq_false_iff, Bool.and_eq_false_iff, decide_eq_false_iff_not,
      beq_eq_false_iff_ne]
    omega
  have hinvisible : c.inRange 0x2061 0x2064 = false := by
    simp only [CodePoint.inRange, Bool.and_eq_false_iff, decide_eq_false_iff_not]
    omega
  have hsigns : ∀ d ∈ ("<>&\"=" : Text), isSmall d = false := by decide
  have hmem : c ∉ ("<>&\"=" : Text) := fun hmem => by
    rw [hsigns c hmem] at h
    cases h
  simp [isMarkupPoint, isAttributePoint, hspace, hmem, hinvisible]

theorem isMarkupPoint_of_mem (h : isElementName name = true) {c : CodePoint} (hc : c ∈ name) : isMarkupPoint c = true := by
  rcases isSmall_or_eq_of_mem h hc with hsmall | rfl
  · exact isMarkupPoint_of_isSmall hsmall
  · decide

theorem Charwise.fixed_name {f : Text → Text} (hf : Charwise f) (h : isElementName name = true) : f name = name :=
  hf.fixed name fun _ hc => isMarkupPoint_of_mem h hc

theorem Charwise.writeAttribute {f : Text → Text} (hf : Charwise f) {a : Text × Text} (h : isProperAttribute a = true) :
    f (Mathml.writeAttribute a) = Mathml.writeAttribute (a.1, f a.2) := by
  have hname : f a.1 = a.1 := hf.fixed a.1 fun c hc => by
    rw [isMarkupPoint, (isProperAttribute_iff.1 h).1 c hc, Bool.true_or]
  rw [Mathml.writeAttribute, hf.append, hf.append, hf.append, hf.append, hname, hf.escape, hf.fixed " " (by decide),
    hf.fixed "=\"" (by decide), hf.fixed "\"" (by decide), Mathml.writeAttribute]

theorem Charwise.writeAttributes {f : Text → Text} (hf : Charwise f) (h : ∀ a ∈ attributes, isProperAttribute a = true) :
    f (attributes.flatMap Mathml.writeAttribute) = (attributes.map fun a => (a.1, f a.2)).flatMap Mathml.writeAttribute := by
  induction attributes with
  | nil => exact hf.fixed [] (fun c hc => absurd hc List.not_mem_nil)
  | cons a as ih =>
    rw [List.flatMap_cons, hf.append, hf.writeAttribute (h a List.mem_cons_self), ih fun b hb => h b (List.mem_cons_of_mem _ hb),
      List.map_cons, List.flatMap_cons]

theorem Charwise.openTag {f : Text → Text} (hf : Charwise f) (hname : isElementName name = true)
    (hattributes : ∀ a ∈ attributes, isProperAttribute a = true) :
    f (Mathml.openTag name attributes) = Mathml.openTag name (attributes.map fun a => (a.1, f a.2)) := by
  have hcons : ∀ name attributes, Mathml.openTag name attributes = "<" ++ (name ++ (attributes.flatMap Mathml.writeAttribute ++ (">" : Text))) :=
    fun _ _ => rfl
  rw [hcons, hf.append, hf.append, hf.append, hf.fixed_name hname, hf.writeAttributes hattributes, hf.fixed "<" (by decide),
    hf.fixed ">" (by decide), hcons]

theorem Charwise.closeTag {f : Text → Text} (hf : Charwise f) (hname : isElementName name = true) :
    f (Mathml.closeTag name) = Mathml.closeTag name := by
  rw [Mathml.closeTag, hf.append, hf.append, hf.fixed_name hname, hf.fixed "</" (by decide), hf.fixed ">" (by decide)]

/-- What is done to each character of what is written is done to the texts and the values. -/
theorem Charwise.write {f : Text → Text} (hf : Charwise f) (hproper : content.Everywhere IsProper) :
    f content.write = (content.mapText f).write := by
  induction content with
  | text t => exact hf.escape t
  | element before name attributes children rest ihc ihr =>
    obtain ⟨⟨hname, hattributes⟩, hproperc, hproperr⟩ := hproper
    rw [Content.write, hf.append, hf.append, hf.append, hf.append, hf.escape, hf.openTag hname hattributes, ihc hproperc,
      hf.closeTag hname, ihr hproperr]
    rfl

/-- Dropping characters does not touch references, if it drops none of the characters that they are made of. -/
theorem filter_escape {p : CodePoint → Bool} (hp : ∀ c ∈ ("&amplgt;<>" : Text), p c = true) (t : Text) :
    (escape t).filter p = escape (t.filter p) := by
  induction t with
  | nil => rfl
  | cons c t ih =>
    have hpoint : (escapePoint c).filter p = escape ([c].filter p) := by
      rcases escapePoint_cases c with ⟨body, hbody, heq, hc⟩ | ⟨heq, -⟩
      · have hpc : p c = true := hp c (by rcases hc with rfl | rfl | rfl <;> decide)
        have hall : ∀ body ∈ Text.ofStrings ["amp;", "lt;", "gt;"], ∀ d ∈ ('&' : CodePoint) :: body, d ∈ ("&amplgt;<>" : Text) := by
          decide
        have hkept : (escapePoint c).filter p = escapePoint c := by
          rw [heq]
          exact List.filter_eq_self.2 fun d hd => hp d (hall body hbody d hd)
        rw [hkept, List.filter_cons_of_pos hpc]
        exact (List.append_nil _).symm
      · rw [heq]
        cases hpc : p c with
        | true =>
          rw [List.filter_cons_of_pos hpc, List.filter_nil]
          exact (congrArg (· ++ []) heq).symm
        | false => simp [hpc, escape]
    rw [escape_cons, List.filter_append, ih, hpoint, ← escape_append, ← List.filter_append]
    rfl

/-- Replacing characters does not touch references, if it replaces none of theirs, and puts no character of markup. -/
theorem map_escape {g : CodePoint → CodePoint} (hg : ∀ c ∈ ("&amplgt;<>" : Text), g c = c)
    (hplain : ∀ c, g c ∈ ("&<>" : Text) → g c = c) (t : Text) : (escape t).map g = escape (t.map g) := by
  induction t with
  | nil => rfl
  | cons c t ih =>
    have hpoint : (escapePoint c).map g = escapePoint (g c) := by
      rcases escapePoint_cases c with ⟨body, hbody, heq, hc⟩ | ⟨heq, hamp, hlt, hgt⟩
      · have hgc : g c = c := hg c (by rcases hc with rfl | rfl | rfl <;> decide)
        have hall : ∀ body ∈ Text.ofStrings ["amp;", "lt;", "gt;"], ∀ d ∈ ('&' : CodePoint) :: body, d ∈ ("&amplgt;<>" : Text) := by
          decide
        rw [hgc, heq]
        exact (List.map_congr_left fun d hd => hg d (hall body hbody d hd)).trans (List.map_id _)
      · have hnone : ∀ d ∈ ("&<>" : Text), g c ≠ d := by
          rintro d hd rfl
          rw [hplain c hd] at hd
          have hcases : c = '&' ∨ c = '<' ∨ c = '>' := by simpa [Text.ofString] using hd
          tauto
        have hgc : escapePoint (g c) = [g c] := by
          unfold escapePoint
          rw [if_neg (hnone '&' (by decide)), if_neg (hnone '<' (by decide)), if_neg (hnone '>' (by decide))]
        rw [heq, hgc]
        rfl
    rw [escape_cons, List.map_append, hpoint, ih]
    rfl

/-! ### Typographic spaces -/

theorem charwise_plainSpaces : Charwise Text.plainSpaces where
  append s t := List.map_append
  escape t := by
    refine map_escape (by decide) (fun c hc => ?_) t
    split at hc
    · exact absurd hc (by decide)
    · next h => rw [if_neg h]
  fixed t ht := by
    refine (List.map_congr_left fun c hc => ?_).trans (List.map_id t)
    have hpoint : c.isTypographicSpace = false := by
      have hsigns : ∀ c ∈ (" <>=\"" : Text), c.isTypographicSpace = false := by decide
      rcases Bool.or_eq_true_iff.1 (ht c hc) with hattribute | hsign
      · simp only [isAttributePoint, CodePoint.isSpace, Bool.and_eq_true, Bool.not_eq_true', Bool.or_eq_false_iff] at hattribute
        simp only [CodePoint.isTypographicSpace, Bool.or_eq_false_iff]
        tauto
      · exact hsigns c (by simpa using hsign)
    rw [hpoint]
    rfl

/-! ### Invisible operators -/

/-- A text without invisible operators. -/
def dropInvisible (t : Text) : Text := t.filter fun c => !c.inRange 0x2061 0x2064

theorem charwise_dropInvisible : Charwise dropInvisible where
  append s t := List.filter_append s t
  escape t := filter_escape (by decide) t
  fixed t ht := by
    refine List.filter_eq_self.2 fun c hc => ?_
    have hsigns : ∀ c ∈ (" <>=\"" : Text), (!c.inRange 0x2061 0x2064) = true := by decide
    rcases Bool.or_eq_true_iff.1 (ht c hc) with hattribute | hsign
    · exact (Bool.and_eq_true_iff.1 hattribute).2
    · exact hsigns c (by simpa using hsign)

/-! ### References -/

/-- A text in which no ampersand stands but in the references to the characters of markup. -/
inductive Escaped : Text → Prop
  | nil : Escaped []
  | point {c : CodePoint} {s : Text} : c ≠ '&' → Escaped s → Escaped (c :: s)
  | reference {body s : Text} : body ∈ Text.ofStrings ["amp;", "lt;", "gt;"] → Escaped s → Escaped (('&' : CodePoint) :: body ++ s)

theorem Escaped.append (hs : Escaped s) (ht : Escaped t) : Escaped (s ++ t) := by
  induction hs with
  | nil => exact ht
  | point hc _ ih => exact .point hc ih
  | reference hbody _ ih =>
    rw [List.append_assoc]
    exact .reference hbody ih

theorem escaped_of_not_mem (h : ('&' : CodePoint) ∉ t) : Escaped t := by
  induction t with
  | nil => exact .nil
  | cons c t ih =>
    rw [List.mem_cons, not_or] at h
    exact .point (Ne.symm h.1) (ih h.2)

theorem escaped_escape (t : Text) : Escaped (escape t) := by
  induction t with
  | nil => exact .nil
  | cons c t ih =>
    rw [escape_cons]
    rcases escapePoint_cases c with ⟨body, hbody, heq, -⟩ | ⟨heq, hamp, -, -⟩
    · exact heq ▸ .reference hbody ih
    · exact heq ▸ .point hamp ih

theorem escaped_writeAttribute {a : Text × Text} (h : isProperAttribute a = true) : Escaped (writeAttribute a) := by
  have hname : ('&' : CodePoint) ∉ a.1 := fun hmem => absurd ((isProperAttribute_iff.1 h).1 _ hmem) (by decide)
  exact (escaped_of_not_mem (by decide)).append ((escaped_of_not_mem hname).append ((escaped_of_not_mem (by decide)).append
    ((escaped_escape a.2).append (escaped_of_not_mem (by decide)))))

theorem escaped_write (hproper : content.Everywhere IsProper) : Escaped content.write := by
  induction content with
  | text t => exact escaped_escape t
  | element before name attributes children rest ihc ihr =>
    obtain ⟨⟨hname, hattributes⟩, hproperc, hproperr⟩ := hproper
    have hplain : Escaped name := escaped_of_not_mem (not_mem_elementName hname (by decide) (by decide))
    have hvalues : Escaped (attributes.flatMap writeAttribute) := by
      clear ihc ihr
      induction attributes with
      | nil => exact .nil
      | cons a as ih =>
        exact (escaped_writeAttribute (hattributes a List.mem_cons_self)).append (ih fun b hb => hattributes b (List.mem_cons_of_mem _ hb))
    have hopen : Escaped (openTag name attributes) :=
      .point (by decide) (hplain.append (hvalues.append (escaped_of_not_mem (by decide))))
    have hclose : Escaped (closeTag name) := (escaped_of_not_mem (by decide)).append (hplain.append (escaped_of_not_mem (by decide)))
    exact (escaped_escape before).append (hopen.append ((ihc hproperc).append (hclose.append (ihr hproperr))))

/-- A reference is passed, if nothing is recognised where it starts, nor at any of its other characters. -/
theorem passes_reference {found? : Text → Option α} {body : Text} (hbody : body ∈ Text.ofStrings ["amp;", "lt;", "gt;"])
    (hfirst : ∀ body ∈ Text.ofStrings ["amp;", "lt;", "gt;"], ∀ s, found? (('&' : CodePoint) :: (body ++ s)) = none)
    (hother : ∀ c ∈ ("ampltg;" : Text), ∀ s, found? (c :: s) = none) (s : Text) :
    Text.Passes found? (('&' : CodePoint) :: body) s := by
  have hall : ∀ body ∈ Text.ofStrings ["amp;", "lt;", "gt;"], ∀ c ∈ body, c ∈ ("ampltg;" : Text) := by decide
  refine Text.passes_cons.2 ⟨hfirst body hbody s, fun u hu hsuffix => ?_⟩
  cases u with
  | nil => exact absurd rfl hu
  | cons c u => exact hother c (hall body hbody c (hsuffix.subset List.mem_cons_self)) _

theorem skipNoBreakSpace?_of_ne {c : CodePoint} (hc : c ≠ '&') (s : Text) : skipNoBreakSpace? (c :: s) = none := by
  refine List.findSome?_eq_none_iff.2 fun name hname => ?_
  simp only [List.mem_cons, List.not_mem_nil, or_false] at hname
  rcases hname with rfl | rfl | rfl <;> exact dropPrefixCaseless?_of_ne hc (by decide) s _

/-- No reference to the no-break space is in written content, so that none is replaced. -/
theorem substitute_noBreakSpace (h : Escaped s) : s.substitute (Text.replacing skipNoBreakSpace? " ") = s := by
  have hne : ∀ c ∈ ("ampltg;" : Text), c ≠ '&' := by decide
  have hfirst : ∀ body ∈ Text.ofStrings ["amp;", "lt;", "gt;"], ∀ s, skipNoBreakSpace? (('&' : CodePoint) :: (body ++ s)) = none := by
    intro body hbody s
    simp only [Text.ofStrings, List.map_cons, List.map_nil, List.mem_cons, List.not_mem_nil, or_false] at hbody
    rcases hbody with rfl | rfl | rfl <;> rfl
  induction h with
  | nil => rfl
  | @point c s hc _ ih =>
    have hpasses : Text.Passes skipNoBreakSpace? [c] s := Text.passes_cons.2 ⟨skipNoBreakSpace?_of_ne hc s, Text.passes_nil⟩
    exact hpasses.replacing.trans (congrArg _ ih)
  | @reference body s hbody _ ih =>
    have hpasses := passes_reference hbody hfirst (fun c hc s => skipNoBreakSpace?_of_ne (hne c hc) s) s
    rw [hpasses.replacing, ih]

/-- No reference starts with a character other than an ampersand. -/
theorem dropOneOf?_references {c : CodePoint} (hc : c ≠ '&') (s : Text) {names : List Text}
    (hnames : ∀ name ∈ names, name.head? = some ('&' : CodePoint)) : Text.dropOneOf? (c :: s) names = none := by
  induction names with
  | nil => rfl
  | cons name names ih =>
    have hrest := ih fun name hname => hnames name (List.mem_cons_of_mem _ hname)
    have hname := hnames name List.mem_cons_self
    cases name with
    | nil => cases hname
    | cons d rest =>
      obtain rfl := Option.some.inj hname
      rw [Text.dropOneOf?, Text.dropPrefix?, if_neg hc]
      exact hrest

/-- Where no reference starts, an invisible operator is one character. -/
theorem skipInvisible?_of_ne {c : CodePoint} (hc : c ≠ '&') (s : Text) :
    skipInvisible? (c :: s) = if c.inRange 0x2061 0x2064 then some s else none := by
  have hreferences : Text.dropOneOf? (c :: s) invisibleReferences = none := dropOneOf?_references hc s (by decide)
  rw [skipInvisible?, hreferences]
  rfl

theorem skipInvisible?_reference (s : Text) :
    ∀ body ∈ Text.ofStrings ["amp;", "lt;", "gt;"], skipInvisible? (('&' : CodePoint) :: (body ++ s)) = none := by
  intro body hbody
  simp only [Text.ofStrings, List.map_cons, List.map_nil, List.mem_cons, List.not_mem_nil, or_false] at hbody
  rcases hbody with rfl | rfl | rfl <;> rfl

/-- Deleting the invisible operators drops the characters, since no reference to one is in written content. -/
theorem substitute_invisible (h : Escaped s) : s.substitute (Text.deleting skipInvisible?) = dropInvisible s := by
  have hsmall : ∀ c ∈ ("ampltg;" : Text), c ≠ '&' ∧ c.inRange 0x2061 0x2064 = false := by decide
  have hkept : ∀ body ∈ Text.ofStrings ["amp;", "lt;", "gt;"], dropInvisible (('&' : CodePoint) :: body) = ('&' : CodePoint) :: body := by
    decide
  induction h with
  | nil => rfl
  | @point c s hc _ ih =>
    have hfound := skipInvisible?_of_ne hc s
    rw [← List.singleton_append, charwise_dropInvisible.append, ← ih]
    by_cases hrange : c.inRange 0x2061 0x2064 = true
    · have hdropped : dropInvisible [c] = [] := by simp [dropInvisible, hrange]
      rw [if_pos hrange] at hfound
      rw [hdropped]
      exact Text.substitute_replacing_append (List.cons_ne_nil c []) hfound
    · have hstays : dropInvisible [c] = [c] := by simp [dropInvisible, hrange]
      rw [if_neg hrange] at hfound
      rw [hstays]
      exact Text.Passes.replacing (Text.passes_cons.2 ⟨hfound, Text.passes_nil⟩)
  | @reference body s hbody _ ih =>
    have hpasses := passes_reference hbody (fun body hbody s => skipInvisible?_reference s body hbody)
      (fun c hc s => by rw [skipInvisible?_of_ne (hsmall c hc).1, (hsmall c hc).2]; rfl) s
    rw [charwise_dropInvisible.append, hkept body hbody, ← ih]
    exact hpasses.replacing

end EquationExport.Mathml
