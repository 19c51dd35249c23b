import EquationExport.Html.Writer
import EquationExport.Mathml.Tag
import EquationExport.Proofs.Text.Passing

/-!
# Content with elements in it

Markup as a tree: runs of text with elements between them. What is written of it is gone through by substitutions that
know nothing of trees. A rule that speaks up at tags alone, and is known to do the same to every element, does to what
is written what an edit does to the tree: it keeps the element, gives it other attributes, puts its children in its
place, or puts something else there.
-/

namespace EquationExport.Mathml

open Html (escape escapePoint)

/-- Names with values. -/
abbrev Attributes := List (Text × Text)

/-- Content: text, or text with an element behind it and more content behind that. -/
inductive Content where
  | text (t : Text)
  | element (before name : Text) (attributes : Attributes) (children rest : Content)

/-- An attribute as it is written, with the space before it. -/
def writeAttribute (a : Text × Text) : Text := " " ++ (a.1 ++ ("=\"" ++ (escape a.2 ++ ("\"" : Text))))

/-- An opening tag behind its angle bracket. -/
def tagInside (name : Text) (attributes : Attributes) : Text := name ++ (attributes.flatMap writeAttribute ++ (">" : Text))

/-- An opening tag. -/
def openTag (name : Text) (attributes : Attributes) : Text := ('<' : CodePoint) :: tagInside name attributes

/-- A closing tag. -/
def closeTag (name : Text) : Text := "</" ++ (name ++ (">" : Text))

namespace Content

/-- The content as it is written, with all tags and with the characters of markup escaped. -/
def write : Content → Text
  | text t => escape t
  | element before name attributes children rest =>
    escape before ++ (openTag name attributes ++ (children.write ++ (closeTag name ++ rest.write)))

/-- The content with a text in front of it. -/
def prepend (t : Text) : Content → Content
  | text u => text (t ++ u)
  | element before name attributes children rest => element (t ++ before) name attributes children rest

/-- Content behind other content. -/
def append : Content → Content → Content
  | text t, content => content.prepend t
  | element before name attributes children rest, content => element before name attributes children (rest.append content)

/-- The text in the content, without any tags. -/
def innerText : Content → Text
  | text t => t
  | element before _ _ children rest => before ++ (children.innerText ++ rest.innerText)

/-- The stretches of text between the tags. -/
def runs : Content → List Text
  | text t => [t]
  | element before _ _ children rest => before :: (children.runs ++ rest.runs)

/-- What holds of the name, the attributes and the children of every element in the content. -/
def Everywhere (P : Text → Attributes → Content → Prop) : Content → Prop
  | text _ => True
  | element _ name attributes children rest => P name attributes children ∧ children.Everywhere P ∧ rest.Everywhere P

instance decidableEverywhere (P : Text → Attributes → Content → Prop)
    [∀ name attributes children, Decidable (P name attributes children)] : (content : Content) → Decidable (content.Everywhere P)
  | text _ => .isTrue trivial
  | element _ name attributes children rest =>
    have := decidableEverywhere P children
    have := decidableEverywhere P rest
    inferInstanceAs (Decidable (P name attributes children ∧ children.Everywhere P ∧ rest.Everywhere P))

/-- The content with its texts and the values of its attributes changed. -/
def mapText (f : Text → Text) : Content → Content
  | text t => text (f t)
  | element before name attributes children rest =>
    element (f before) name (attributes.map fun a => (a.1, f a.2)) (children.mapText f) (rest.mapText f)

end Content

/-- What is done to an element. -/
inductive Action where
  /-- It stays, with these attributes. -/
  | keep (attributes : Attributes)
  /-- Its children are put in its place. -/
  | splice
  | put (content : Content)

/-- What is done to elements, going by their names, attributes and children. -/
abbrev Edit := Text → Attributes → Content → Action

/-- The content with every element edited, from the outside in. -/
def Content.reshape (edit : Edit) : Content → Content
  | .text t => .text t
  | .element before name attributes children rest =>
    match edit name attributes children with
    | .keep attributes => .element before name attributes (children.reshape edit) (rest.reshape edit)
    | .splice => ((children.reshape edit).append (rest.reshape edit)).prepend before
    | .put content => (content.append (rest.reshape edit)).prepend before

variable {content : Content} {P Q : Text → Attributes → Content → Prop} {name s t : Text} {attributes : Attributes}
  {change? : Text → Option (Text × Text)} {edit : Edit}

/-! ### Texts as they are written -/

theorem escape_append (s t : Text) : escape (s ++ t) = escape s ++ escape t := List.flatMap_append

theorem escape_cons (c : CodePoint) (t : Text) : escape (c :: t) = escapePoint c ++ escape t := rfl

/-- A character stands for itself, or is written as a reference. -/
theorem escapePoint_cases (c : CodePoint) :
    (∃ body ∈ Text.ofStrings ["amp;", "lt;", "gt;"], escapePoint c = ('&' : CodePoint) :: body ∧ (c = '&' ∨ c = '<' ∨ c = '>')) ∨
      (escapePoint c = [c] ∧ c ≠ '&' ∧ c ≠ '<' ∧ c ≠ '>') := by
  unfold escapePoint
  split
  · next h => exact .inl ⟨"amp;", by simp [Text.ofStrings], rfl, .inl h⟩
  · split
    · next h => exact .inl ⟨"lt;", by simp [Text.ofStrings], rfl, .inr (.inl h)⟩
    · split
      · next h => exact .inl ⟨"gt;", by simp [Text.ofStrings], rfl, .inr (.inr h)⟩
      · exact .inr ⟨rfl, by assumption, by assumption, by assumption⟩

/-- A character in a text as it is written is one of the text, or belongs to a reference. -/
theorem mem_escape {c : CodePoint} (h : c ∈ escape t) :
    (c ∈ t ∧ c ≠ '<' ∧ c ≠ '>') ∨ c ∈ ("&amplgt;" : Text) := by
  obtain ⟨d, hd, hc⟩ := List.mem_flatMap.1 h
  rcases escapePoint_cases d with ⟨body, hbody, heq, -⟩ | ⟨heq, -, hlt, hgt⟩
  · have hall : ∀ body ∈ Text.ofStrings ["amp;", "lt;", "gt;"], ∀ c ∈ ('&' : CodePoint) :: body, c ∈ ("&amplgt;" : Text) := by
      decide
    rw [heq] at hc
    exact .inr (hall body hbody c hc)
  · rw [heq, List.mem_singleton] at hc
    exact .inl (hc ▸ ⟨hd, hlt, hgt⟩)

/-- No character is in a text as it is written that is not in the text, those of references apart. -/
theorem not_mem_escape {c : CodePoint} (hc : c ∉ ("&amplgt;" : Text)) (ht : c ∈ t → c = '<' ∨ c = '>') : c ∉ escape t := by
  intro hmem
  rcases mem_escape hmem with ⟨hmem, hlt, hgt⟩ | hmem
  · exact (ht hmem).elim hlt hgt
  · exact hc hmem

theorem angle_not_mem_escape (t : Text) : ('<' : CodePoint) ∉ escape t ∧ ('>' : CodePoint) ∉ escape t :=
  ⟨not_mem_escape (by decide) fun _ => .inl rfl, not_mem_escape (by decide) fun _ => .inr rfl⟩

/-! ### Content put together -/

namespace Content

@[simp] theorem write_prepend (t : Text) (content : Content) : (content.prepend t).write = escape t ++ content.write := by
  cases content <;> simp [prepend, write, escape_append]

@[simp] theorem write_append (a b : Content) : (a.append b).write = a.write ++ b.write := by
  induction a with
  | text t => exact write_prepend t b
  | element before name attributes children rest _ ihr => simp [append, write, ihr]

theorem everywhere_prepend : (content.prepend t).Everywhere P ↔ content.Everywhere P := by cases content <;> exact Iff.rfl

theorem everywhere_append {a b : Content} : (a.append b).Everywhere P ↔ a.Everywhere P ∧ b.Everywhere P := by
  induction a with
  | text t => rw [append, everywhere_prepend, Everywhere, true_and]
  | element before name attributes children rest _ ihr => rw [append, Everywhere, ihr, Everywhere, and_assoc, and_assoc]

theorem Everywhere.mono (h : content.Everywhere P) (hPQ : ∀ name attributes children, P name attributes children →
    Q name attributes children) : content.Everywhere Q := by
  induction content with
  | text t => trivial
  | element before name attributes children rest ihc ihr => exact ⟨hPQ _ _ _ h.1, ihc h.2.1, ihr h.2.2⟩

theorem Everywhere.and (hP : content.Everywhere P) (hQ : content.Everywhere Q) :
    content.Everywhere fun name attributes children => P name attributes children ∧ Q name attributes children := by
  induction content with
  | text t => trivial
  | element before name attributes children rest ihc ihr => exact ⟨⟨hP.1, hQ.1⟩, ihc hP.2.1 hQ.2.1, ihr hP.2.2 hQ.2.2⟩

theorem Everywhere.children (h : content.Everywhere P) : content.Everywhere fun _ _ children => children.Everywhere P := by
  induction content with
  | text t => trivial
  | element before name attributes children rest ihc ihr => exact ⟨h.2.1, ihc h.2.1, ihr h.2.2⟩

/-- What an edit leaves has a property, if what every element has goes over to what is made of it. -/
theorem Everywhere.reshape (h : content.Everywhere P)
    (hedit : ∀ name attributes children, P name attributes children → match edit name attributes children with
      | .keep attributes => Q name attributes (children.reshape edit)
      | .splice => True
      | .put content => content.Everywhere Q) : (content.reshape edit).Everywhere Q := by
  induction content with
  | text t => trivial
  | element before name attributes children rest ihc ihr =>
    obtain ⟨hroot, hchildren, hrest⟩ := h
    have hkind := hedit name attributes children hroot
    rw [Content.reshape]
    cases haction : edit name attributes children with
    | keep new =>
      rw [haction] at hkind
      exact ⟨hkind, ihc hchildren, ihr hrest⟩
    | splice => exact everywhere_prepend.2 (everywhere_append.2 ⟨ihc hchildren, ihr hrest⟩)
    | put new =>
      rw [haction] at hkind
      exact everywhere_prepend.2 (everywhere_append.2 ⟨hkind, ihr hrest⟩)

theorem Everywhere.mapText {f : Text → Text} (h : content.Everywhere P)
    (hf : ∀ name attributes children, P name attributes children →
      Q name (attributes.map fun a => (a.1, f a.2)) (children.mapText f)) : (content.mapText f).Everywhere Q := by
  induction content with
  | text t => trivial
  | element before name attributes children rest ihc ihr => exact ⟨hf _ _ _ h.1, ihc h.2.1, ihr h.2.2⟩

/-- With the children of every element in its place there is nothing left but the text. -/
theorem reshape_splice (content : Content) : content.reshape (fun _ _ _ => .splice) = text content.innerText := by
  induction content with
  | text t => rfl
  | element before name attributes children rest ihc ihr =>
    rw [Content.reshape, ihc, ihr]
    rfl

/-- No element of the name is in the content. -/
def Lacks (name : Text) (content : Content) : Prop := content.Everywhere fun other _ _ => other ≠ name

/-- No element of the name is inside another one of the name. -/
def Unnested (name : Text) (content : Content) : Prop :=
  content.Everywhere fun other _ children => other = name → children.Lacks name

instance (name : Text) (content : Content) : Decidable (content.Lacks name) := decidableEverywhere _ content

instance (name : Text) (content : Content) : Decidable (content.Unnested name) := decidableEverywhere _ content

end Content

/-! ### Proper names and values -/

/-- A small letter. -/
def isSmall (c : CodePoint) : Bool := c.inRange 0x61 0x7A

theorem ne_of_isSmall {c d : CodePoint} (hc : isSmall c = true) (hd : isSmall d = false) : c ≠ d := by
  rintro rfl
  rw [hc] at hd
  cases hd

/-- The name of an element: small letters, or the one name with a hyphen in it. -/
def isElementName (name : Text) : Bool := name == "annotation-xml" || (!name.isEmpty && name.all isSmall)

/-- May stand in the name of an attribute: no white space, none of the characters of markup, no invisible operator. -/
def isAttributePoint (c : CodePoint) : Bool := !c.isSpace && c ∉ ("<>&\"=" : Text) && !c.inRange 0x2061 0x2064

/-- An attribute with a proper name, and neither a double quote nor an equals sign in its value. -/
def isProperAttribute (a : Text × Text) : Bool := a.1.all isAttributePoint && !a.2.containsPoint '"' && !a.2.containsPoint '='

/-- An element with a proper name and proper attributes. -/
def IsProper (name : Text) (attributes : Attributes) (_ : Content) : Prop :=
  isElementName name = true ∧ ∀ a ∈ attributes, isProperAttribute a = true

theorem isProperAttribute_iff {a : Text × Text} : isProperAttribute a = true ↔
    (∀ c ∈ a.1, isAttributePoint c = true) ∧ ('"' : CodePoint) ∉ a.2 ∧ ('=' : CodePoint) ∉ a.2 := by
  simp [isProperAttribute, Text.containsPoint, and_assoc]

/-- A character that may not stand in a name does not stand in one. -/
theorem not_mem_elementName (h : isElementName name = true) {c : CodePoint} (hc : isSmall c = false) (hyphen : c ≠ '-') :
    c ∉ name := by
  rcases Bool.or_eq_true_iff.1 h with heq | hall
  · rw [beq_iff_eq.1 heq]
    have hnone : ∀ d ∈ ("annotation-xml" : Text), isSmall d = true ∨ d = '-' := by decide
    intro hmem
    rcases hnone c hmem with hsmall | heq
    · rw [hsmall] at hc
      cases hc
    · exact hyphen heq
  · intro hmem
    rw [List.all_eq_true.1 (Bool.and_eq_true_iff.1 hall).2 c hmem] at hc
    cases hc

theorem exists_cons_of_elementName (h : isElementName name = true) : ∃ c rest, name = c :: rest ∧ isSmall c = true := by
  rcases Bool.or_eq_true_iff.1 h with heq | hall
  · exact ⟨'a', "nnotation-xml", beq_iff_eq.1 heq, by decide⟩
  · obtain ⟨hne, hall⟩ := Bool.and_eq_true_iff.1 hall
    cases name with
    | nil => cases hne
    | cons c rest => exact ⟨c, rest, rfl, List.all_eq_true.1 hall c List.mem_cons_self⟩

theorem angle_not_mem_writeAttribute {a : Text × Text} (h : isProperAttribute a = true) :
    ('<' : CodePoint) ∉ writeAttribute a ∧ ('>' : CodePoint) ∉ writeAttribute a := by
  obtain ⟨hname, -, -⟩ := isProperAttribute_iff.1 h
  obtain ⟨hlt, hgt⟩ := angle_not_mem_escape a.2
  have hopen : ('<' : CodePoint) ∉ a.1 := fun hmem => absurd (hname _ hmem) (by decide)
  have hclose : ('>' : CodePoint) ∉ a.1 := fun hmem => absurd (hname _ hmem) (by decide)
  have hparts : ∀ c ∈ [('<' : CodePoint), '>'], c ∉ (" " : Text) ∧ c ∉ ("=\"" : Text) ∧ c ∉ ("\"" : Text) := by decide
  obtain ⟨h₁, h₂, h₃⟩ := hparts '<' (by simp)
  obtain ⟨h₄, h₅, h₆⟩ := hparts '>' (by simp)
  simp only [writeAttribute, List.mem_append, not_or]
  exact ⟨⟨h₁, hopen, h₂, hlt, h₃⟩, h₄, hclose, h₅, hgt, h₆⟩

/-- The first angle bracket behind the one that opens a tag ends it. -/
theorem exists_tagInside (hname : isElementName name = true) (hattributes : ∀ a ∈ attributes, isProperAttribute a = true) :
    ∃ inside, tagInside name attributes = inside ++ [('>' : CodePoint)] ∧ ('<' : CodePoint) ∉ inside ∧ ('>' : CodePoint) ∉ inside := by
  refine ⟨name ++ attributes.flatMap writeAttribute, by simp [tagInside, Text.ofString], ?_, ?_⟩
  all_goals
    simp only [List.mem_append, List.mem_flatMap, not_or, not_exists, not_and]
    refine ⟨not_mem_elementName hname (by decide) (by decide), fun a ha => ?_⟩
  · exact (angle_not_mem_writeAttribute (hattributes a ha)).1
  · exact (angle_not_mem_writeAttribute (hattributes a ha)).2

theorem angle_not_mem_tagInside (hname : isElementName name = true) (hattributes : ∀ a ∈ attributes, isProperAttribute a = true) :
    ('<' : CodePoint) ∉ tagInside name attributes := by
  obtain ⟨inside, heq, hlt, -⟩ := exists_tagInside hname hattributes
  rw [heq, List.mem_append, not_or]
  exact ⟨hlt, by decide⟩

/-! ### Rules that speak up at tags alone -/

/-- Recognises nothing but at an angle bracket. -/
def AtTags (found? : Text → Option α) : Prop := ∀ (c : CodePoint) (s : Text), c ≠ '<' → found? (c :: s) = none

/-- A stretch without angle brackets is passed. -/
theorem AtTags.passes {found? : Text → Option α} (h : AtTags found?) (ht : ('<' : CodePoint) ∉ t) (s : Text) :
    Text.Passes found? t s := by
  intro u hu hsuffix
  cases u with
  | nil => exact absurd rfl hu
  | cons c u =>
    refine h c _ ?_
    rintro rfl
    exact ht (hsuffix.subset List.mem_cons_self)

/-- A tag is passed, if nothing is recognised where it opens. -/
theorem AtTags.passes_cons {found? : Text → Option α} (h : AtTags found?) (ht : ('<' : CodePoint) ∉ t)
    (hfirst : found? (('<' : CodePoint) :: (t ++ s)) = none) : Text.Passes found? (('<' : CodePoint) :: t) s :=
  Text.passes_cons.2 ⟨hfirst, h.passes ht s⟩

theorem openTag_ne_nil (name : Text) (attributes : Attributes) : openTag name attributes ≠ [] := List.cons_ne_nil _ _

theorem closeTag_ne_nil (name : Text) : closeTag name ≠ [] := List.cons_ne_nil ('<' : CodePoint) ("/" ++ (name ++ (">" : Text)))

theorem angle_not_mem_closeTag (hname : isElementName name = true) : ('<' : CodePoint) ∉ ("/" : Text) ++ (name ++ (">" : Text)) := by
  simp only [List.mem_append, not_or]
  exact ⟨by decide, not_mem_elementName hname (by decide) (by decide), by decide⟩

/-- Content is passed, if nothing is recognised at any of its tags. -/
theorem AtTags.passes_write {found? : Text → Option α} (h : AtTags found?) (hproper : content.Everywhere IsProper)
    (hnone : content.Everywhere fun name attributes _ =>
      (∀ s, found? (openTag name attributes ++ s) = none) ∧ ∀ s, found? (closeTag name ++ s) = none) (s : Text) :
    Text.Passes found? content.write s := by
  induction content generalizing s with
  | text t => exact h.passes (angle_not_mem_escape t).1 s
  | element before name attributes children rest ihc ihr =>
    obtain ⟨⟨hname, hattributes⟩, hproperc, hproperr⟩ := hproper
    obtain ⟨⟨hopen, hclose⟩, hnonec, hnoner⟩ := hnone
    refine Text.passes_append.2 ⟨h.passes (angle_not_mem_escape before).1 _, Text.passes_append.2 ⟨?_,
      Text.passes_append.2 ⟨ihc hproperc hnonec _, Text.passes_append.2 ⟨?_, ihr hproperr hnoner s⟩⟩⟩⟩
    · exact h.passes_cons (angle_not_mem_tagInside hname hattributes) (hopen _)
    · exact h.passes_cons (angle_not_mem_closeTag hname) (hclose _)

/-- The rule does to the element, as it is written, what the edit does to it. -/
def Follows (change? : Text → Option (Text × Text)) (edit : Edit) (name : Text) (attributes : Attributes) (children : Content) :
    Prop :=
  match edit name attributes children with
  | .keep new =>
    (∀ s, (new = attributes ∧ change? (openTag name attributes ++ (children.write ++ (closeTag name ++ s))) = none) ∨
      change? (openTag name attributes ++ (children.write ++ (closeTag name ++ s))) =
        some (openTag name new, children.write ++ (closeTag name ++ s))) ∧
    ∀ s, change? (closeTag name ++ s) = none
  | .splice =>
    (∀ s, change? (openTag name attributes ++ s) = some ([], s)) ∧ ∀ s, change? (closeTag name ++ s) = some ([], s)
  | .put content => ∀ s, change? (openTag name attributes ++ (children.write ++ (closeTag name ++ s))) = some (content.write, s)

/-- A rule that says nothing at the tags of an element follows an edit that keeps it. -/
theorem follows_of_none {children : Content} (haction : edit name attributes children = .keep attributes)
    (hopen : ∀ s, change? (openTag name attributes ++ (children.write ++ (closeTag name ++ s))) = none)
    (hclose : ∀ s, change? (closeTag name ++ s) = none) : Follows change? edit name attributes children := by
  rw [Follows, haction]
  exact ⟨fun s => .inl ⟨rfl, hopen s⟩, hclose⟩

/-- A rule that does to every element what an edit does makes of written content what is written of the edited content. -/
theorem AtTags.substitute_write_append (h : AtTags change?) (hproper : content.Everywhere IsProper)
    (hfollows : content.Everywhere (Follows change? edit)) (s : Text) :
    (content.write ++ s).substitute (fun _ => change?) = (content.reshape edit).write ++ s.substitute fun _ => change? := by
  -- what stands behind the content is carried along: a rule looks at all of it
  induction content generalizing s with
  | text t => exact (h.passes (angle_not_mem_escape t).1 s).substitute
  | element before name attributes children rest ihc ihr =>
    obtain ⟨⟨hname, hattributes⟩, hproperc, hproperr⟩ := hproper
    obtain ⟨hroot, hfollowsc, hfollowsr⟩ := hfollows
    have hrest := ihr hproperr hfollowsr s
    have hchildren := fun s => ihc hproperc hfollowsc s
    rw [Content.write, Content.reshape]
    simp only [List.append_assoc]
    rw [(h.passes (angle_not_mem_escape before).1 _).substitute]
    unfold Follows at hroot
    cases haction : edit name attributes children with
    | keep new =>
      rw [haction] at hroot
      obtain ⟨hopen, hclose⟩ := hroot
      have hopening : (openTag name attributes ++ (children.write ++ (closeTag name ++ (rest.write ++ s)))).substitute
          (fun _ => change?) =
            openTag name new ++ (children.write ++ (closeTag name ++ (rest.write ++ s))).substitute fun _ => change? := by
        rcases hopen (rest.write ++ s) with ⟨rfl, hnone⟩ | hsome
        · exact (h.passes_cons (angle_not_mem_tagInside hname hattributes) hnone).substitute
        · exact Text.substitute_append (openTag_ne_nil name attributes) hsome
      have hclosing : (closeTag name ++ (rest.write ++ s)).substitute (fun _ => change?) =
          closeTag name ++ (rest.write ++ s).substitute fun _ => change? :=
        (h.passes_cons (angle_not_mem_closeTag hname) (hclose (rest.write ++ s))).substitute
      rw [hopening, hchildren, hclosing, hrest]
      simp only [Content.write, List.append_assoc]
    | splice =>
      rw [haction] at hroot
      obtain ⟨hopen, hclose⟩ := hroot
      rw [Text.substitute_append (openTag_ne_nil name attributes) (hopen _), List.nil_append, hchildren,
        Text.substitute_append (closeTag_ne_nil name) (hclose _), List.nil_append, hrest]
      simp only [Content.write_prepend, Content.write_append, List.append_assoc]
    | put new =>
      rw [haction] at hroot
      have hall : openTag name attributes ++ (children.write ++ (closeTag name ++ (rest.write ++ s))) =
          (openTag name attributes ++ (children.write ++ closeTag name)) ++ (rest.write ++ s) := by
        simp only [List.append_assoc]
      have hput := hroot (rest.write ++ s)
      rw [hall] at hput
      have hne : openTag name attributes ++ (children.write ++ closeTag name) ≠ [] :=
        List.append_ne_nil_of_left_ne_nil (openTag_ne_nil name attributes) _
      rw [hall, Text.substitute_append hne hput, hrest]
      simp only [Content.write_prepend, Content.write_append, List.append_assoc]

theorem AtTags.substitute_write (h : AtTags change?) (hproper : content.Everywhere IsProper)
    (hfollows : content.Everywhere (Follows change? edit)) :
    content.write.substitute (fun _ => change?) = (content.reshape edit).write := by
  have hall := h.substitute_write_append hproper hfollows []
  rw [List.append_nil] at hall
  rw [hall]
  exact List.append_nil _

end EquationExport.Mathml
