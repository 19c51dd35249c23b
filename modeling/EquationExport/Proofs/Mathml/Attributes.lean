import EquationExport.Proofs.Mathml.Elements

/-!
# Attributes that the cleaner drops

An attribute is recognised from the white space before it to the quote that ends its value. In the tags of written
content that is where an attribute stands, and nowhere else: there is no white space in a name, and in a value there is no
equals sign to stand behind a name. Fence attributes are looked for in the tags of operators alone. Declarations are looked
for in all that is written, so that text must not read as one.
-/

namespace EquationExport.Mathml

open Html (escape escapePoint)

variable {content children : Content} {name s t u : Text} {attributes : Attributes} {skip? : Text → Option Text}
  {drops : Text × Text → Bool}

/-! ### Attributes recognised where they stand -/

/-- The rule finds the attributes that are to be dropped where they are written. -/
structure FindsAttributes (skip? : Text → Option Text) (drops : Text × Text → Bool) : Prop where
  /-- What is found begins with white space. -/
  space : ∀ (c : CodePoint) (s : Text), c.isSpace = false → skip? (c :: s) = none
  /-- No quote stands before its equals sign. -/
  sign : ∀ s r, skip? s = some r → ∃ front behind, s = front ++ ('=' : CodePoint) :: behind ∧ ('"' : CodePoint) ∉ front
  found : ∀ a s, isProperAttribute a = true → skip? (writeAttribute a ++ s) = if drops a then some s else none

theorem FindsAttributes.passes (h : FindsAttributes skip? drops) (ht : ∀ c ∈ t, c.isSpace = false) (s : Text) :
    Text.Passes skip? t s := by
  intro u hu hsuffix
  cases u with
  | nil => exact absurd rfl hu
  | cons c u => exact h.space c _ (ht c (hsuffix.subset List.mem_cons_self))

/-- Nothing is found in a value, since no equals sign is in it and a quote ends it. -/
theorem FindsAttributes.passes_value (h : FindsAttributes skip? drops) (hsign : ('=' : CodePoint) ∉ t)
    (s : Text) : Text.Passes skip? t (('"' : CodePoint) :: s) := by
  intro u hu hsuffix
  cases hfound : skip? (u ++ ('"' : CodePoint) :: s) with
  | none => rfl
  | some r =>
    exfalso
    obtain ⟨front, behind, heq, hfront⟩ := h.sign _ _ hfound
    -- the first equals sign and the first quote of one text: which of them stands before the other?
    have hsignu : ('=' : CodePoint) ∉ u := fun hmem => hsign (hsuffix.subset hmem)
    rcases List.append_eq_append_iff.1 heq with ⟨more, rfl, hmore⟩ | ⟨more, rfl, hmore⟩
    · cases more with
      | nil => exact absurd (List.cons.inj hmore).1 (by decide)
      | cons c more =>
        obtain ⟨rfl, -⟩ := List.cons.inj hmore
        exact hfront (by simp)
    · cases more with
      | nil => exact absurd (List.cons.inj hmore).1 (by decide)
      | cons c more =>
        obtain ⟨rfl, -⟩ := List.cons.inj hmore
        exact hsignu (by simp)

theorem equals_not_mem_escape (h : ('=' : CodePoint) ∉ t) : ('=' : CodePoint) ∉ escape t :=
  not_mem_escape (by decide) fun hmem => absurd hmem h

theorem quote_not_mem_escape (h : ('"' : CodePoint) ∉ t) : ('"' : CodePoint) ∉ escape t :=
  not_mem_escape (by decide) fun hmem => absurd hmem h

theorem isSpace_of_isAttributePoint {c : CodePoint} (h : isAttributePoint c = true) : c.isSpace = false := by
  simp only [isAttributePoint, Bool.and_eq_true, Bool.not_eq_true'] at h
  exact h.1.1

/-- An attribute that is not to be dropped is passed. -/
theorem FindsAttributes.passes_attribute (h : FindsAttributes skip? drops) {a : Text × Text} (ha : isProperAttribute a = true)
    (hkept : drops a = false) (s : Text) : Text.Passes skip? (writeAttribute a) s := by
  obtain ⟨hname, -, hsign⟩ := isProperAttribute_iff.1 ha
  have hfirst := h.found a s ha
  rw [hkept, if_neg Bool.false_ne_true] at hfirst
  have hrest : Text.Passes skip? (a.1 ++ ("=\"" ++ (escape a.2 ++ ("\"" : Text)))) s :=
    Text.passes_append.2 ⟨h.passes (fun c hc => isSpace_of_isAttributePoint (hname c hc)) _, Text.passes_append.2
      ⟨h.passes (by decide) _, Text.passes_append.2
        ⟨h.passes_value (equals_not_mem_escape hsign) s, h.passes (by decide) s⟩⟩⟩
  exact Text.passes_cons.2 ⟨hfirst, hrest⟩

theorem writeAttribute_ne_nil (a : Text × Text) : writeAttribute a ≠ [] := List.cons_ne_nil _ _

/-- Of the attributes in a tag those that are not to be dropped are left. -/
theorem FindsAttributes.substitute_attributes (h : FindsAttributes skip? drops)
    (hattributes : ∀ a ∈ attributes, isProperAttribute a = true) (s : Text) :
    Text.substitute (attributes.flatMap writeAttribute ++ s) (Text.deleting skip?) =
      (attributes.filter fun a => !drops a).flatMap writeAttribute ++ s.substitute (Text.deleting skip?) := by
  induction attributes with
  | nil => rfl
  | cons a as ih =>
    have ha := hattributes a List.mem_cons_self
    have hrest := ih fun b hb => hattributes b (List.mem_cons_of_mem _ hb)
    rw [List.flatMap_cons, List.append_assoc]
    cases hdrops : drops a with
    | true =>
      have hfound := h.found a (as.flatMap writeAttribute ++ s) ha
      rw [hdrops, if_pos rfl] at hfound
      rw [List.filter_cons_of_neg (by simp [hdrops]), ← hrest]
      exact Text.substitute_replacing_append (writeAttribute_ne_nil a) hfound
    | false =>
      rw [List.filter_cons_of_pos (by simp [hdrops]), List.flatMap_cons, List.append_assoc, ← hrest]
      exact (h.passes_attribute ha hdrops _).replacing

theorem isSpace_of_mem_name (hname : isElementName name = true) {c : CodePoint} (hc : c ∈ name) : c.isSpace = false := by
  have hpoint := isMarkupPoint_of_mem hname hc
  rcases Bool.or_eq_true_iff.1 hpoint with hattribute | hsign
  · exact isSpace_of_isAttributePoint hattribute
  · have hspace : c = ' ' ∨ c.isSpace = false := by
      have hsigns : ∀ c ∈ (" <>=\"" : Text), c = ' ' ∨ c.isSpace = false := by decide
      exact hsigns c (by simpa using hsign)
    rcases hspace with rfl | hspace
    · exact absurd (isSmall_or_eq_of_mem hname hc) (by decide)
    · exact hspace

theorem FindsAttributes.substitute_openTag (h : FindsAttributes skip? drops) (hname : isElementName name = true)
    (hattributes : ∀ a ∈ attributes, isProperAttribute a = true) (s : Text) :
    Text.substitute (openTag name attributes ++ s) (Text.deleting skip?) =
      openTag name (attributes.filter fun a => !drops a) ++ s.substitute (Text.deleting skip?) := by
  have hfront : Text.Passes skip? (('<' : CodePoint) :: name) (attributes.flatMap writeAttribute ++ (">" ++ s)) := by
    refine h.passes (fun c hc => ?_) _
    rcases List.mem_cons.1 hc with rfl | hc
    · decide
    · exact isSpace_of_mem_name hname hc
  have hend : Text.Passes skip? (">" : Text) s := h.passes (by decide) s
  rw [openTag_append, openTag_append, ← List.cons_append, ← List.cons_append]
  refine hfront.replacing.trans (congrArg _ ?_)
  refine (h.substitute_attributes hattributes _).trans (congrArg _ ?_)
  exact hend.replacing

/-! ### Fence attributes -/

/-- Fence attributes go from operators. -/
def fenceRemoval : Edit := fun name attributes _ =>
  .keep (if name = "mo" then attributes.filter fun a => !fenceAttributes.contains a.1 else attributes)

theorem dropOneOf?_cases (s : Text) (names : List Text) :
    (∃ p ∈ names, ∃ r, s.dropOneOf? names = some (p, r) ∧ s = p ++ r) ∨
      (s.dropOneOf? names = none ∧ ∀ p ∈ names, ¬ p <+: s) := by
  induction names with
  | nil => exact .inr ⟨rfl, fun p hp => absurd hp List.not_mem_nil⟩
  | cons p names ih =>
    rw [Text.dropOneOf?]
    cases hdrop : s.dropPrefix? p with
    | some r => exact .inl ⟨p, List.mem_cons_self, r, rfl, Text.eq_append_of_dropPrefix? hdrop⟩
    | none =>
      rcases ih with ⟨q, hq, r, hfound, heq⟩ | ⟨hnone, hprefix⟩
      · exact .inl ⟨q, List.mem_cons_of_mem _ hq, r, hfound, heq⟩
      · refine .inr ⟨hnone, fun q hq => ?_⟩
        rcases List.mem_cons.1 hq with rfl | hq
        · exact Text.dropPrefix?_eq_none_iff.1 hdrop
        · exact hprefix q hq

/-- Behind an attribute's name, as far as it is read, stands an equals sign, or there is more of the name. -/
theorem dropPrefix?_equals (ht : ∀ c ∈ t, isAttributePoint c = true) (s : Text) :
    Text.dropPrefix? (Text.trimStart (t ++ ('=' : CodePoint) :: s)) "=" = if t = [] then some s else none := by
  cases t with
  | nil => exact Text.dropPrefix?_append "=" s
  | cons c t =>
    have hc := ht c List.mem_cons_self
    have hspace : (!c.isSpace) = true := by rw [isSpace_of_isAttributePoint hc]; rfl
    have hne : c ≠ '=' := by
      rintro rfl
      exact absurd hc (by decide)
    rw [if_neg (List.cons_ne_nil c t), List.cons_append, Text.trimStart, List.dropWhile_cons_of_neg (by simpa using hspace)]
    exact if_neg hne

/-- The front of a written attribute behind the white space. -/
theorem trimStart_writeAttribute {a : Text × Text} (ha : isProperAttribute a = true) (s : Text) :
    Text.trimStart (writeAttribute a ++ s) =
      a.1 ++ ('=' : CodePoint) :: (('"' : CodePoint) :: (escape a.2 ++ ('"' : CodePoint) :: s)) := by
  have hshape : writeAttribute a ++ s =
      (' ' : CodePoint) :: (a.1 ++ ('=' : CodePoint) :: (('"' : CodePoint) :: (escape a.2 ++ ('"' : CodePoint) :: s))) := by
    simp [writeAttribute, Text.ofString]
  rw [hshape, Text.trimStart, List.dropWhile_cons_of_pos (by decide)]
  cases hname : a.1 with
  | nil => exact List.dropWhile_cons_of_neg (by decide)
  | cons c rest =>
    have hc := (isProperAttribute_iff.1 ha).1 c (hname ▸ List.mem_cons_self)
    exact List.dropWhile_cons_of_neg (by rw [isSpace_of_isAttributePoint hc]; decide)

/-- Before white space is dropped there is the white space. -/
theorem exists_append_trimStart (s : Text) : ∃ spaces, s = spaces ++ s.trimStart ∧ ('"' : CodePoint) ∉ spaces := by
  refine ⟨s.takeWhile (·.isSpace), List.takeWhile_append_dropWhile.symm, fun hmem => ?_⟩
  exact absurd (List.mem_takeWhile_imp hmem) (by decide)

/-- A name with an equals sign behind it has no quote before the equals sign. -/
theorem exists_sign {p r behind : Text} (hp : ('"' : CodePoint) ∉ p) (hname : s.trimStart = p ++ r)
    (hsign : r.trimStart.dropPrefix? "=" = some behind) :
    ∃ front behind, s = front ++ ('=' : CodePoint) :: behind ∧ ('"' : CodePoint) ∉ front := by
  obtain ⟨before, hbefore, hplain⟩ := exists_append_trimStart s
  obtain ⟨between, hbetween, hplain'⟩ := exists_append_trimStart r
  have hequals : r.trimStart = ('=' : CodePoint) :: behind := Text.eq_append_of_dropPrefix? hsign
  rw [hname] at hbefore
  rw [hequals] at hbetween
  refine ⟨before ++ (p ++ between), behind, by rw [hbefore, hbetween]; simp, ?_⟩
  simp [hplain, hp, hplain']

theorem skipQuoted?_value (ht : ('"' : CodePoint) ∉ t) (s : Text) :
    skipQuoted? (('"' : CodePoint) :: (escape t ++ ('"' : CodePoint) :: s)) = some s := by
  have hvalue : Text.breakOn? (escape t ++ ('"' : CodePoint) :: s) "\"" = some (escape t, s) :=
    Text.breakOn?_of_not_mem (quote_not_mem_escape ht)
  have hquote : Text.dropOneOf? (('"' : CodePoint) :: (escape t ++ ('"' : CodePoint) :: s)) ["\"", "'"] =
      some (("\"" : Text), escape t ++ ('"' : CodePoint) :: s) := by
    have hfront : Text.dropPrefix? (('"' : CodePoint) :: (escape t ++ ('"' : CodePoint) :: s)) "\"" =
        some (escape t ++ ('"' : CodePoint) :: s) := Text.dropPrefix?_append "\"" _
    rw [Text.dropOneOf?.eq_def]
    dsimp only
    rw [hfront]
  rw [skipQuoted?, hquote]
  exact congrArg (Option.map (·.2)) hvalue

theorem findsAttributes_fence : FindsAttributes skipFenceAttribute? fun a => fenceAttributes.contains a.1 where
  space c s hc := by
    rw [skipFenceAttribute?, hc]
    rfl
  sign s r h := by
    have hplain : ∀ p ∈ fenceAttributes, ('"' : CodePoint) ∉ p := by decide
    cases s with
    | nil => cases h
    | cons c s =>
      rw [skipFenceAttribute?] at h
      split at h
      · obtain ⟨⟨p, r₁⟩, hname, h⟩ := Option.bind_eq_some_iff.1 h
        obtain ⟨r₂, hsign, -⟩ := Option.bind_eq_some_iff.1 h
        rcases dropOneOf?_cases (Text.trimStart (c :: s)) fenceAttributes with ⟨q, hq, r, hfound, heq⟩ | ⟨hnone, -⟩
        · rw [hname] at hfound
          cases hfound
          exact exists_sign (hplain _ hq) heq hsign
        · rw [hname] at hnone
          cases hnone
      · cases h
  found a s ha := by
    have hplain : ∀ p ∈ fenceAttributes, ('=' : CodePoint) ∉ p := by decide
    have hapart : ∀ p ∈ fenceAttributes, ∀ q ∈ fenceAttributes, p <+: q → p = q := by decide
    obtain ⟨hname, hquote, -⟩ := isProperAttribute_iff.1 ha
    obtain ⟨rest, hrest⟩ : ∃ rest, writeAttribute a ++ s = (' ' : CodePoint) :: rest := ⟨_, rfl⟩
    have htrim := trimStart_writeAttribute ha s
    rw [hrest] at htrim
    rw [hrest, skipFenceAttribute?, if_pos (by decide), htrim]
    rcases dropOneOf?_cases (a.1 ++ ('=' : CodePoint) :: (('"' : CodePoint) :: (escape a.2 ++ ('"' : CodePoint) :: s)))
      fenceAttributes with ⟨p, hp, r, hfound, heq⟩ | ⟨hnone, hprefix⟩
    · obtain ⟨more, hmore⟩ := Text.prefix_of_prefix_append_cons (hplain p hp) ⟨r, heq.symm⟩
      rw [← hmore, List.append_assoc] at heq
      rw [hfound, Option.bind_eq_bind, Option.bind_some, ← List.append_cancel_left heq]
      dsimp only
      rw [dropPrefix?_equals fun c hc => hname c (hmore ▸ List.mem_append_right p hc)]
      by_cases hnil : more = []
      · subst hnil
        rw [List.append_nil] at hmore
        rw [if_pos rfl, if_pos (by simpa [hmore] using hp), Option.bind_eq_bind, Option.bind_some, Text.trimStart,
          List.dropWhile_cons_of_neg (by decide)]
        exact skipQuoted?_value hquote s
      · rw [if_neg hnil, if_neg]
        · rfl
        · simp only [List.contains_iff_mem]
          intro hmem
          have heq := hapart p hp a.1 hmem ⟨more, hmore⟩
          rw [← heq] at hmore
          exact hnil (List.append_right_eq_self.1 hmore)
    · rw [hnone, if_neg]
      · rfl
      · simp only [List.contains_iff_mem]
        exact fun hmem => hprefix _ hmem (List.prefix_append _ _)

theorem atTags_plainOperatorTag? : AtTags plainOperatorTag? := fun c s hc => by
  have hword : skipWord? (c :: s) "<mo" = none := skipWord?_of_ne hc s "mo"
  rw [plainOperatorTag?, hword]
  rfl

/-- Fence attributes are dropped from the operators in content. -/
theorem stripFenceAttributes_write (hproper : content.Everywhere IsProper) :
    stripFenceAttributes content.write = (content.reshape fenceRemoval).write := by
  have hmo : isElementName "mo" = true := by decide
  refine atTags_plainOperatorTag?.substitute_write hproper (hproper.mono ?_)
  rintro name attributes children ⟨hname, hattributes⟩
  have hopen : ∀ s, skipWord? (openTag name attributes ++ s) "<mo" = _ := fun s =>
    skipWord?_openTag hname hmo (fun _ => by decide) s
  refine ⟨fun s => ?_, fun s => ?_⟩
  · by_cases h : name = "mo"
    · subst h
      have htag : Text.substitute ("<mo" ++ attributes.flatMap writeAttribute ++ ">") (Text.deleting skipFenceAttribute?) =
          openTag "mo" (attributes.filter fun a => !fenceAttributes.contains a.1) := by
        have hall := findsAttributes_fence.substitute_openTag hmo hattributes []
        rw [List.append_nil] at hall
        refine (congrArg (Text.substitute · _) ?_).trans (hall.trans (List.append_nil _))
        rw [List.append_assoc]
        rfl
      refine .inr ?_
      rw [plainOperatorTag?, hopen, if_pos rfl, Option.bind_eq_bind, Option.bind_some,
        tagRest?_attributes hattributes, if_pos rfl, ← htag]
      rfl
    · refine .inl ⟨if_neg h, ?_⟩
      rw [plainOperatorTag?, hopen, if_neg h]
      rfl
  · have hclose : skipWord? (closeTag name ++ s) "<mo" = none := skipWord?_closeTag hmo name s
    rw [plainOperatorTag?, hclose]
    rfl

/-! ### Declarations of the namespace -/

/-- The name of the MathML namespace. -/
def mathmlNamespace : Text := "http://www.w3.org/1998/Math/MathML"

/-- The attribute declares the MathML namespace, as the default one or with the prefix `mml`. -/
def declaresMathml (a : Text × Text) : Bool := (a.1 == "xmlns" || a.1 == "xmlns:mml") && a.2 == mathmlNamespace

/-- Declarations of the MathML namespace go from all elements. -/
def declarationRemoval : Edit := fun _ attributes _ => .keep (attributes.filter fun a => !declaresMathml a)

theorem escape_of_not_mem (h : ('&' : CodePoint) ∉ escape t) : escape t = t := by
  induction t with
  | nil => rfl
  | cons c t ih =>
    rw [escape_cons] at h ⊢
    rw [List.mem_append, not_or] at h
    rcases escapePoint_cases c with ⟨body, -, heq, -⟩ | ⟨heq, -⟩
    · exact absurd (heq ▸ List.mem_cons_self) h.1
    · rw [heq, ih h.2]
      rfl

/-- What follows an optional prefix is the rest behind it or the whole. -/
theorem getD_dropPrefix? (r pre : Text) : ∃ front ∈ [[], pre], r = front ++ (r.dropPrefix? pre).getD r := by
  cases h : r.dropPrefix? pre with
  | none => exact ⟨[], by simp, rfl⟩
  | some rest => exact ⟨pre, by simp, Text.eq_append_of_dropPrefix? h⟩

/-- The value of a declaration is read to its end. -/
theorem dropPrefix?_namespace (ht : ('"' : CodePoint) ∉ t) (s : Text) :
    Text.dropPrefix? (Text.trimStart (('"' : CodePoint) :: (escape t ++ ('"' : CodePoint) :: s)))
      "\"http://www.w3.org/1998/Math/MathML\"" = if t = mathmlNamespace then some s else none := by
  have hquoted : ("\"http://www.w3.org/1998/Math/MathML\"" : Text) =
      ('"' : CodePoint) :: (mathmlNamespace ++ [('"' : CodePoint)]) := rfl
  rw [Text.trimStart, List.dropWhile_cons_of_neg (by decide), hquoted]
  split
  · next h =>
    subst h
    have hplain : escape mathmlNamespace = mathmlNamespace := escape_of_not_mem (by decide)
    rw [hplain]
    exact Text.dropPrefix?_eq_some_iff.2 (by simp)
  · next h =>
    refine Text.dropPrefix?_eq_none_iff.2 ?_
    rintro ⟨rest, hrest⟩
    rw [List.cons_append, List.append_assoc] at hrest
    have hvalue := (Text.append_cons_inj (List.cons.inj hrest).2 (by decide) (quote_not_mem_escape ht)).1
    exact h ((escape_of_not_mem (hvalue ▸ by decide)).symm.trans hvalue.symm)

/-- The two names that a declaration of the namespace can have. -/
theorem dropPrefix?_xmlns (ht : ∀ c ∈ t, isAttributePoint c = true) (s : Text) :
    (Text.dropPrefix? (t ++ ('=' : CodePoint) :: s) "xmlns").bind
        (fun r => ((r.dropPrefix? ":mml").getD r).trimStart.dropPrefix? "=") =
      if t = "xmlns" ∨ t = "xmlns:mml" then some s else none := by
  have hcancel : ∀ a b : Text, ("xmlns" : Text) ++ a = ("xmlns" : Text) ++ b → a = b := fun _ _ => List.append_cancel_left
  cases hname : Text.dropPrefix? (t ++ ('=' : CodePoint) :: s) "xmlns" with
  | none =>
    have hnot := Text.dropPrefix?_eq_none_iff.1 hname
    rw [if_neg]
    · rfl
    · rintro (rfl | rfl)
      · exact hnot ⟨('=' : CodePoint) :: s, rfl⟩
      · exact hnot ⟨":mml" ++ ('=' : CodePoint) :: s, rfl⟩
  | some r =>
    have heq := Text.eq_append_of_dropPrefix? hname
    obtain ⟨more, rfl⟩ := Text.prefix_of_prefix_append_cons (by decide) ⟨r, heq.symm⟩
    rw [List.append_assoc] at heq
    obtain rfl := List.append_cancel_left heq
    rw [Option.bind_some]
    cases hprefix : Text.dropPrefix? (more ++ ('=' : CodePoint) :: s) ":mml" with
    | none =>
      rw [Option.getD_none, dropPrefix?_equals fun c hc => ht c (List.mem_append_right _ hc)]
      refine if_congr ⟨fun h => .inl (by rw [h, List.append_nil]), ?_⟩ rfl rfl
      rintro (h | h)
      · exact List.append_right_eq_self.1 h
      · obtain rfl : more = ":mml" := hcancel _ _ h
        rw [Text.dropPrefix?_append] at hprefix
        cases hprefix
    | some r =>
      have heq := Text.eq_append_of_dropPrefix? hprefix
      obtain ⟨more, rfl⟩ := Text.prefix_of_prefix_append_cons (by decide) ⟨r, heq.symm⟩
      rw [List.append_assoc] at heq
      obtain rfl := List.append_cancel_left heq
      rw [Option.getD_some, dropPrefix?_equals fun c hc => ht c (List.mem_append_right _ (List.mem_append_right _ hc))]
      refine if_congr ⟨fun h => .inr (by rw [h]; rfl), ?_⟩ rfl rfl
      rintro (h | h)
      · exact absurd (List.append_right_eq_self.1 h) (List.append_ne_nil_of_left_ne_nil (by decide) _)
      · exact List.append_right_eq_self.1 (hcancel _ ":mml" h)

theorem findsAttributes_namespace : FindsAttributes skipNamespace? declaresMathml where
  space c s hc := by
    rw [skipNamespace?, hc]
    rfl
  sign s r h := by
    cases s with
    | nil => cases h
    | cons c s =>
      rw [skipNamespace?] at h
      split at h
      · obtain ⟨r₁, hname, h⟩ := Option.bind_eq_some_iff.1 h
        obtain ⟨r₂, hsign, -⟩ := Option.bind_eq_some_iff.1 h
        obtain ⟨front, hfront, heq⟩ := getD_dropPrefix? r₁ ":mml"
        have hquote : ∀ front ∈ [[], (":mml" : Text)], ('"' : CodePoint) ∉ ("xmlns" : Text) ++ front := by decide
        refine exists_sign (hquote front hfront) ?_ hsign
        rw [List.append_assoc, ← heq]
        exact Text.eq_append_of_dropPrefix? hname
      · cases h
  found a s ha := by
    obtain ⟨hname, hquote, -⟩ := isProperAttribute_iff.1 ha
    obtain ⟨rest, hrest⟩ : ∃ rest, writeAttribute a ++ s = (' ' : CodePoint) :: rest := ⟨_, rfl⟩
    have htrim := trimStart_writeAttribute ha s
    rw [hrest] at htrim
    rw [hrest, skipNamespace?, if_pos (by decide), htrim]
    have hfound := dropPrefix?_xmlns hname (('"' : CodePoint) :: (escape a.2 ++ ('"' : CodePoint) :: s))
    have hvalue := dropPrefix?_namespace hquote s
    simp only [Option.bind_eq_bind]
    rw [← Option.bind_assoc, hfound]
    by_cases h : a.1 = "xmlns" ∨ a.1 = "xmlns:mml"
    · rw [if_pos h, Option.bind_some, hvalue]
      simp [declaresMathml, h]
    · rw [if_neg h]
      simp [declaresMathml, h]

/-- A text without an ampersand that stands in front of a text as it is written stands in front of the text. -/
theorem prefix_of_prefix_escape {needle : Text} (hamp : ('&' : CodePoint) ∉ needle) (h : needle <+: escape t) : needle <+: t := by
  induction t generalizing needle with
  | nil => exact h
  | cons c t ih =>
    cases needle with
    | nil => exact List.nil_prefix
    | cons d needle =>
      rw [List.mem_cons, not_or] at hamp
      rw [escape_cons] at h
      rcases escapePoint_cases c with ⟨body, -, heq, -⟩ | ⟨heq, -⟩
      · rw [heq, List.cons_append, List.cons_prefix_cons] at h
        exact absurd h.1.symm hamp.1
      · rw [heq, List.singleton_append, List.cons_prefix_cons] at h
        exact List.cons_prefix_cons.2 ⟨h.1, ih hamp.2 h.2⟩

/-- What stands in a text as it is written, and could not be part of a reference, stands in the text. -/
theorem infix_of_infix_escape {needle : Text} (hamp : ('&' : CodePoint) ∉ needle) (hend : (';' : CodePoint) ∉ needle)
    (hbody : ∀ body ∈ Text.ofStrings ["", "amp", "lt", "gt"], ¬ needle <:+: body) (h : needle <:+: escape t) : needle <:+: t := by
  induction t with
  | nil => exact h
  | cons c t ih =>
    rw [escape_cons] at h
    rcases escapePoint_cases c with ⟨body, hmem, heq, -⟩ | ⟨heq, -⟩
    · obtain ⟨word, hword, rfl⟩ : ∃ word ∈ Text.ofStrings ["", "amp", "lt", "gt"], body = word ++ [(';' : CodePoint)] := by
        simp only [Text.ofStrings, List.map_cons, List.map_nil, List.mem_cons, List.not_mem_nil, or_false] at hmem
        rcases hmem with rfl | rfl | rfl
        · exact ⟨"amp", by simp [Text.ofStrings], rfl⟩
        · exact ⟨"lt", by simp [Text.ofStrings], rfl⟩
        · exact ⟨"gt", by simp [Text.ofStrings], rfl⟩
      have hsplit : escapePoint c ++ escape t = [] ++ ('&' : CodePoint) :: (word ++ (';' : CodePoint) :: escape t) := by simp [heq]
      rw [hsplit, Text.infix_append_cons_iff hamp, Text.infix_append_cons_iff hend] at h
      rcases h with h | h | h
      · exact absurd h (hbody [] (by simp [Text.ofStrings, Text.ofString]))
      · exact absurd h (hbody word hword)
      · exact (ih h).trans (List.suffix_cons c t).isInfix
    · rw [heq, List.singleton_append, List.infix_cons_iff] at h
      rcases h with h | h
      · have hfront : needle <+: escape (c :: t) := by rwa [escape_cons, heq, List.singleton_append]
        exact (prefix_of_prefix_escape hamp hfront).isInfix
      · exact (ih h).trans (List.suffix_cons c t).isInfix

/-- A text that has nothing of a declaration in it is passed, up to the next tag. -/
theorem passes_text (ht : ¬ ("xmlns" : Text) <:+: t) (hs : s = [] ∨ ∃ more, s = ('<' : CodePoint) :: more) :
    Text.Passes skipNamespace? (escape t) s := by
  -- white space in the text, up to its end, is followed by the rest of the text, or by the tag
  have hdeclared : ∀ u, u <:+ escape t → ¬ ("xmlns" : Text) <+: Text.trimStart (u ++ s) := by
    intro u hsuffix h
    have hfront : ("xmlns" : Text) <+: Text.trimStart u := by
      rcases hs with rfl | ⟨more, rfl⟩
      · rwa [List.append_nil] at h
      · rw [trimStart_append_cons (by decide)] at h
        exact Text.prefix_of_prefix_append_cons (by decide) h
    have hinfix : ("xmlns" : Text) <:+: escape t :=
      hfront.isInfix.trans ((List.dropWhile_suffix _).isInfix.trans hsuffix.isInfix)
    exact ht (infix_of_infix_escape (by decide) (by decide) (by decide) hinfix)
  intro u hu hsuffix
  have hnone := Text.dropPrefix?_eq_none_iff.2 (hdeclared u hsuffix)
  cases u with
  | nil => exact absurd rfl hu
  | cons c u =>
    rw [List.cons_append] at hnone
    rw [List.cons_append, skipNamespace?, hnone]
    exact ite_self _

/-- Declarations of the namespace are dropped from all elements of content, if no text in it has anything of one. -/
theorem substitute_namespace (hproper : content.Everywhere IsProper) (hquiet : ∀ run ∈ content.runs, ¬ ("xmlns" : Text) <:+: run)
    (hs : s = [] ∨ ∃ more, s = ('<' : CodePoint) :: more) :
    Text.substitute (content.write ++ s) (Text.deleting skipNamespace?) =
      (content.reshape declarationRemoval).write ++ s.substitute (Text.deleting skipNamespace?) := by
  induction content generalizing s with
  | text t => exact (passes_text (hquiet t (by simp [Content.runs])) hs).replacing
  | element before name attributes children rest ihc ihr =>
    obtain ⟨⟨hname, hattributes⟩, hproperc, hproperr⟩ := hproper
    have hquietc : ∀ run ∈ children.runs, ¬ ("xmlns" : Text) <:+: run := fun run hrun => hquiet run (by simp [Content.runs, hrun])
    have hquietr : ∀ run ∈ rest.runs, ¬ ("xmlns" : Text) <:+: run := fun run hrun => hquiet run (by simp [Content.runs, hrun])
    have hclosing : Text.Passes skipNamespace? (closeTag name) (rest.write ++ s) := by
      refine findsAttributes_namespace.passes (fun c hc => ?_) _
      rcases List.mem_append.1 hc with hc | hc
      · exact (show ∀ c ∈ ("</" : Text), c.isSpace = false by decide) c hc
      · rcases List.mem_append.1 hc with hc | hc
        · exact isSpace_of_mem_name hname hc
        · exact (show ∀ c ∈ (">" : Text), c.isSpace = false by decide) c hc
    have hrest := ihr hproperr hquietr hs
    have hchildren := ihc hproperc hquietc (s := closeTag name ++ (rest.write ++ s)) (.inr ⟨_, rfl⟩)
    have htext := passes_text (s := openTag name attributes ++ (children.write ++ (closeTag name ++ (rest.write ++ s))))
      (hquiet before (by simp [Content.runs])) (.inr ⟨_, rfl⟩)
    have hopening := findsAttributes_namespace.substitute_openTag hname hattributes (children.write ++ (closeTag name ++ (rest.write ++ s)))
    rw [Content.write]
    simp only [List.append_assoc]
    have hclosed : Text.substitute (closeTag name ++ (rest.write ++ s)) (Text.deleting skipNamespace?) =
        closeTag name ++ Text.substitute (rest.write ++ s) (Text.deleting skipNamespace?) := hclosing.replacing
    have htexted : Text.substitute (escape before ++ (openTag name attributes ++ (children.write ++ (closeTag name ++ (rest.write ++ s)))))
        (Text.deleting skipNamespace?) = escape before ++ Text.substitute
          (openTag name attributes ++ (children.write ++ (closeTag name ++ (rest.write ++ s)))) (Text.deleting skipNamespace?) :=
      htext.replacing
    rw [htexted, hopening, hchildren, hclosed, hrest]
    simp only [Content.reshape, declarationRemoval, Content.write, List.append_assoc]

end EquationExport.Mathml
