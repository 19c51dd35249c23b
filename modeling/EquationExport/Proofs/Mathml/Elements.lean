import Mathlib.Data.List.TakeWhile
import EquationExport.Proofs.Mathml.Characters

/-!
# Elements that the cleaner deletes, unwraps and flattens

Each pass of the cleaner over the elements of one name does to what is written of content what an edit does to the
content: annotations are deleted, the children of wrappers are put in their place, an operator that holds an invisible
operator and nothing else is deleted, and a text element becomes an identifier.
-/

namespace EquationExport.Mathml

open Html (escape escapePoint)

variable {content children : Content} {name target s t : Text} {attributes : Attributes}

/-! ### The edits -/

/-- Elements of the name go, with all they hold. -/
def deletion (target : Text) : Edit := fun name attributes _ => if name = target then .put (.text []) else .keep attributes

/-- Elements of the name give way to their children. -/
def unwrapping (target : Text) : Edit := fun name attributes _ => if name = target then .splice else .keep attributes

/-- Nothing but one invisible operator, with white space around it or not. -/
def isInvisible (t : Text) : Bool :=
  match t.trimStart with
  | c :: rest => c.inRange 0x2061 0x2064 && Text.isBlank rest
  | [] => false

/-- The content is text, and nothing but one invisible operator. -/
def Content.isInvisible : Content → Bool
  | text t => Mathml.isInvisible t
  | element .. => false

/-- Operators that hold an invisible operator and nothing else go. -/
def invisibleDeletion : Edit := fun name attributes children =>
  if name = "mo" && children.isInvisible then .put (.text []) else .keep attributes

/-- An identifier without attributes that holds a text. -/
def identifier (t : Text) : Content := .element [] "mi" [] (.text t) (.text [])

/-- Text elements become identifiers that hold their text. -/
def flattening : Edit := fun name attributes children =>
  if name = "mtext" then .put (identifier children.innerText.stripZeroWidth) else .keep attributes

/-! ### Deletion and unwrapping -/

theorem AtTags.map {found? : Text → Option α} (h : AtTags found?) (f : α → β) : AtTags fun s => (found? s).map f :=
  fun c s hc => congrArg (Option.map f) (h c s hc)

theorem atTags_skipElement? (target : Text) : AtTags (skipElement? target) := fun c s hc => by
  have hword : skipWordCaseless? (c :: s) ("<" ++ target) = none := skipWordCaseless?_of_ne hc (by decide) s target
  rw [skipElement?, hword]

theorem atTags_skipAnyTag? (target : Text) : AtTags (skipAnyTag? target) := fun c s hc => by
  have hclose : skipWordCaseless? (c :: s) ("</" ++ target) = none := skipWordCaseless?_of_ne hc (by decide) s ("/" ++ target)
  have hopen : skipWordCaseless? (c :: s) ("<" ++ target) = none := skipWordCaseless?_of_ne hc (by decide) s target
  rw [skipAnyTag?, hclose, hopen]
  rfl

theorem atTags_skipOpenTag? (target : Text) : AtTags (skipOpenTag? target) := fun c s hc => by
  have hword : skipWord? (c :: s) ("<" ++ target) = none := skipWord?_of_ne hc s target
  rw [skipOpenTag?, hword]
  rfl

/-- Elements of a name that are not nested in one another are deleted from content with all they hold. -/
theorem deleteElements_write (htarget : isElementName target = true) (hproper : content.Everywhere IsProper)
    (hxml : content.Everywhere fun name _ _ => name = "annotation-xml" → target ≠ "annotation") (hunnested : content.Unnested target) :
    deleteElements target content.write = (content.reshape (deletion target)).write := by
  refine ((atTags_skipElement? target).map ([], ·)).substitute_write hproper
    (((hproper.and hproper.children).and (hxml.and hunnested)).mono ?_)
  rintro name attributes children ⟨⟨⟨hname, hattributes⟩, hchildren⟩, hne, hlacks⟩
  by_cases h : name = target
  · subst h
    rw [Follows, deletion, if_pos rfl]
    exact fun s => by rw [skipElement?_element htarget hattributes hchildren (hlacks rfl)]; rfl
  · exact follows_of_none (if_neg h) (fun s => by rw [skipElement?_openTag hname htarget hne h]; rfl)
      fun s => by rw [skipElement?_closeTag htarget]; rfl

/-- The tags of a name are deleted from content, and what stands between them stays. -/
theorem deleteTags_write (htarget : isElementName target = true) (hother : target ≠ "annotation")
    (hproper : content.Everywhere IsProper) : deleteTags target content.write = (content.reshape (unwrapping target)).write := by
  refine ((atTags_skipAnyTag? target).map ([], ·)).substitute_write hproper (hproper.mono ?_)
  rintro name attributes children ⟨hname, hattributes⟩
  have hopen := fun s => skipAnyTag?_openTag hname htarget (fun _ => hother) hattributes s
  have hclose := fun s => skipAnyTag?_closeTag hname htarget (fun _ => hother) s
  by_cases h : name = target
  · rw [Follows, unwrapping, if_pos h]
    exact ⟨fun s => by rw [hopen, if_pos h]; rfl, fun s => by rw [hclose, if_pos h]; rfl⟩
  · exact follows_of_none (if_neg h) (fun s => by rw [hopen, if_neg h]; rfl) fun s => by rw [hclose, if_neg h]; rfl

/-! ### Invisible operators in operator elements -/

theorem trimStart_append_cons {c : CodePoint} (hc : c.isSpace = false) (t s : Text) :
    Text.trimStart (t ++ c :: s) = t.trimStart ++ c :: s := by
  induction t with
  | nil => simp [Text.trimStart, hc]
  | cons d t ih => cases hd : d.isSpace <;> simp_all [Text.trimStart]

theorem trimStart_escape (t : Text) : Text.trimStart (escape t) = escape t.trimStart := by
  induction t with
  | nil => rfl
  | cons c t ih =>
    rw [escape_cons]
    cases hc : c.isSpace with
    | true =>
      have hself : escapePoint c = [c] := by
        rcases escapePoint_cases c with ⟨-, -, -, rfl | rfl | rfl⟩ | ⟨heq, -⟩
        · exact absurd hc (by decide)
        · exact absurd hc (by decide)
        · exact absurd hc (by decide)
        · exact heq
      rw [hself]
      simpa [Text.trimStart, hc] using ih
    | false =>
      have hstays : Text.trimStart (c :: t) = c :: t := by simp [Text.trimStart, hc]
      rw [hstays, escape_cons]
      rcases escapePoint_cases c with ⟨body, -, heq, -⟩ | ⟨heq, -⟩
      · rw [heq]
        rfl
      · rw [heq]
        simp [Text.trimStart, hc]

/-- What is left when white space at the front is dropped, if anything is, does not begin with white space. -/
theorem trimStart_eq_nil_iff {t : Text} : t.trimStart = [] ↔ t.isBlank = true := by
  simp [Text.trimStart, Text.isBlank, List.dropWhile_eq_nil_iff]

/-- A text stands before a closing tag as it is written, unless there is none. -/
theorem dropPrefix?_escape (t s more : Text) : Text.dropPrefix? (escape t ++ ('<' : CodePoint) :: s) (('<' : CodePoint) :: more) =
    if t = [] then s.dropPrefix? more else none := by
  cases t with
  | nil => rw [escape, List.flatMap_nil, List.nil_append, Text.dropPrefix?, if_pos rfl, if_pos rfl]
  | cons c t =>
    rw [if_neg (List.cons_ne_nil c t), escape_cons]
    rcases escapePoint_cases c with ⟨body, -, heq, -⟩ | ⟨heq, -, hlt, -⟩
    · rw [heq]
      exact if_neg (by decide)
    · rw [heq]
      exact if_neg hlt

/-- Recognises the code points of a class, one at a time, and nothing of what the characters of markup are written as. -/
structure Picks (skip? : Text → Option Text) (p : CodePoint → Bool) : Prop where
  point : ∀ {c : CodePoint}, c ≠ '&' → ∀ s, skip? (c :: s) = if p c then some s else none
  reference : ∀ body ∈ Text.ofStrings ["amp;", "lt;", "gt;"], ∀ s, skip? (('&' : CodePoint) :: (body ++ s)) = none
  markup : ∀ c ∈ ("&<>" : Text), p c = false

/-- Nothing but one code point of a class, with white space around it or not. -/
def holdsOnly (p : CodePoint → Bool) (t : Text) : Bool :=
  match t.trimStart with
  | c :: rest => p c && Text.isBlank rest
  | [] => false

/-- A code point of the class alone, with the start of a tag behind it. -/
theorem Picks.trimStart {skip? : Text → Option Text} {p : CodePoint → Bool} (h : Picks skip? p) (t s more : Text) :
    (skip? (Text.trimStart (escape t ++ ('<' : CodePoint) :: s))).bind
        (fun after => after.trimStart.dropPrefix? (('<' : CodePoint) :: more)) =
      if holdsOnly p t then s.dropPrefix? more else none := by
  rw [trimStart_append_cons (by decide), trimStart_escape]
  unfold holdsOnly
  cases ht : t.trimStart with
  | nil =>
    have hnone : skip? (('<' : CodePoint) :: s) = none := by
      rw [h.point (by decide), h.markup '<' (by decide)]
      rfl
    exact congrArg (Option.bind · _) hnone
  | cons c rest =>
    rw [escape_cons]
    rcases escapePoint_cases c with ⟨body, hbody, heq, hc⟩ | ⟨heq, hamp, -⟩
    · have hp : p c = false := by rcases hc with rfl | rfl | rfl <;> exact h.markup _ (by decide)
      rw [heq, List.append_assoc, List.cons_append, h.reference body hbody]
      simp [hp]
    · rw [heq, List.append_assoc, List.singleton_append, h.point hamp]
      cases hp : p c with
      | false => simp [hp]
      | true =>
        rw [if_pos rfl, Option.bind_some, trimStart_append_cons (by decide), trimStart_escape, dropPrefix?_escape]
        simp [hp, trimStart_eq_nil_iff]

theorem picks_skipInvisible? : Picks skipInvisible? (·.inRange 0x2061 0x2064) where
  point hc s := skipInvisible?_of_ne hc s
  reference body hbody s := skipInvisible?_reference s body hbody
  markup := by decide

/-- An invisible operator alone, with the start of a tag behind it. -/
theorem skipInvisible?_trimStart (t s more : Text) :
    (skipInvisible? (Text.trimStart (escape t ++ ('<' : CodePoint) :: s))).bind
        (fun after => after.trimStart.dropPrefix? (('<' : CodePoint) :: more)) =
      if isInvisible t then s.dropPrefix? more else none := picks_skipInvisible?.trimStart t s more

/-- Written content with a closing tag behind it begins with a text, a tag behind that. -/
theorem skipInvisible?_write (hname : content.Everywhere IsProper) (s : Text) :
    (skipInvisible? (Text.trimStart (content.write ++ (closeTag "mo" ++ s)))).bind
        (fun after => after.trimStart.dropPrefix? "</mo>") = if content.isInvisible then some s else none := by
  cases content with
  | text t =>
    refine (skipInvisible?_trimStart t ("/mo>" ++ s) "/mo>").trans ?_
    rw [Text.dropPrefix?_append]
    rfl
  | element before name attributes children rest =>
    obtain ⟨c, more, rfl, hc⟩ := exists_cons_of_elementName hname.1.1
    rw [Content.write, List.append_assoc, List.append_assoc, openTag_append]
    refine (skipInvisible?_trimStart before _ "/mo>").trans ?_
    have hnone : ∀ s, Text.dropPrefix? (c :: s) "/mo>" = none := fun s => if_neg (ne_of_isSmall hc (by decide))
    rw [List.cons_append, hnone, ite_self]
    rfl

/-- Operators that hold an invisible operator and nothing else are deleted from content, and then all invisible operators. -/
theorem stripInvisibleOperators_write (hproper : content.Everywhere IsProper)
    (hdeleted : (content.reshape invisibleDeletion).Everywhere IsProper) :
    stripInvisibleOperators content.write = ((content.reshape invisibleDeletion).mapText dropInvisible).write := by
  have hmo : isElementName "mo" = true := by decide
  have hat : AtTags (skipOperatorHolding? skipInvisible?) := fun c s hc => by
    rw [skipOperatorHolding?, atTags_skipOpenTag? "mo" c s hc]
    rfl
  have hclose : ∀ name s, skipOperatorHolding? skipInvisible? (closeTag name ++ s) = none := fun name s => by
    rw [skipOperatorHolding?, skipOpenTag?, skipWord?_closeTag hmo]
    rfl
  have hoperators : content.write.substitute (Text.deleting (skipOperatorHolding? skipInvisible?)) =
      (content.reshape invisibleDeletion).write := by
    refine (hat.map ([], ·)).substitute_write hproper ((hproper.and hproper.children).mono ?_)
    rintro name attributes children ⟨⟨hname, hattributes⟩, hchildren⟩
    have hopen : ∀ s, skipOperatorHolding? skipInvisible? (openTag name attributes ++ (children.write ++ (closeTag name ++ s))) =
        if name = "mo" && children.isInvisible then some s else none := by
      intro s
      rw [skipOperatorHolding?, skipOpenTag?_openTag hname hmo (fun _ => by decide) hattributes]
      by_cases h : name = "mo"
      · subst h
        rw [if_pos rfl]
        simpa using skipInvisible?_write hchildren s
      · simp [h]
    cases haction : (name = "mo" && children.isInvisible : Bool) with
    | true =>
      rw [Follows, invisibleDeletion, if_pos haction]
      exact fun s => by rw [hopen, if_pos haction]; rfl
    | false =>
      refine follows_of_none (if_neg (Bool.eq_false_iff.1 haction)) (fun s => ?_) fun s => by rw [hclose]; rfl
      rw [hopen, if_neg (Bool.eq_false_iff.1 haction)]
      rfl
  rw [stripInvisibleOperators, hoperators, substitute_invisible (escaped_write hdeleted), charwise_dropInvisible.write hdeleted]

/-! ### Text elements -/

/-- A tag that does not close itself does not end in a slash. -/
theorem endsWith_attributes (attributes : Attributes) : Text.endsWith (attributes.flatMap writeAttribute) "/" = false := by
  rcases List.eq_nil_or_concat attributes with rfl | ⟨front, a, rfl⟩
  · rfl
  · have hlast : ((front.concat a).flatMap writeAttribute).reverse =
        ('"' : CodePoint) :: (front.flatMap writeAttribute ++ (" " ++ (a.1 ++ ("=\"" ++ escape a.2)))).reverse := by
      simp [writeAttribute, Text.ofString]
    rw [Text.endsWith, hlast]
    rfl

/-- No text element closes itself in written content, so that none is replaced as one that does. -/
theorem substitute_emptyText (hproper : content.Everywhere IsProper) :
    content.write.substitute (Text.replacing skipEmptyText? "<mi></mi>") = content.write := by
  have hmtext : isElementName "mtext" = true := by decide
  have hat : AtTags skipEmptyText? := fun c s hc => by
    have hword : skipWord? (c :: s) "<mtext" = none := skipWord?_of_ne hc s "mtext"
    rw [skipEmptyText?, hword]
    rfl
  have hpasses : Text.Passes skipEmptyText? content.write [] := by
    refine hat.passes_write hproper (hproper.mono ?_) []
    rintro name attributes children ⟨hname, hattributes⟩
    refine ⟨fun s => ?_, fun s => ?_⟩
    · have hword : skipWord? (openTag name attributes ++ s) "<mtext" = _ :=
        skipWord?_openTag hname hmtext (fun _ => by decide) s
      rw [skipEmptyText?, hword]
      by_cases h : name = "mtext"
      · rw [if_pos h, Option.bind_eq_bind, Option.bind_some, tagRest?_attributes hattributes]
        simp [endsWith_attributes]
      · rw [if_neg h]
        rfl
    · have hword : skipWord? (closeTag name ++ s) "<mtext" = none := skipWord?_closeTag hmtext name s
      rw [skipEmptyText?, hword]
      rfl
  have hall : Text.substitute (content.write ++ []) (Text.replacing skipEmptyText? "<mi></mi>") = content.write ++ [] :=
    hpasses.replacing
  rwa [List.append_nil] at hall

/-- Any tag is found as one. -/
theorem skipTag?_of_inside {inside : Text} (hne : inside ≠ []) (hgt : ('>' : CodePoint) ∉ inside) (s : Text) :
    skipTag? (('<' : CodePoint) :: (inside ++ ('>' : CodePoint) :: s)) = some s := by
  have hrest : tagRest? (inside ++ ('>' : CodePoint) :: s) = some (inside, s) := Text.breakOn?_of_not_mem hgt
  have hfront : Text.dropPrefix? (('<' : CodePoint) :: (inside ++ ('>' : CodePoint) :: s)) "<" =
      some (inside ++ ('>' : CodePoint) :: s) := Text.dropPrefix?_append "<" _
  rw [skipTag?, hfront]
  dsimp only
  rw [hrest]
  exact if_neg (by simpa using hne)

/-- The text of marked-up content is its text without the characters that take no room. -/
theorem contentText_write (hproper : content.Everywhere IsProper) : contentText content.write = escape content.innerText.stripZeroWidth := by
  have hat : AtTags skipTag? := fun c s hc => by
    have hfront : Text.dropPrefix? (c :: s) "<" = none := if_neg hc
    rw [skipTag?, hfront]
  have htags : content.write.substitute (Text.deleting skipTag?) = (content.reshape fun _ _ _ => .splice).write := by
    refine (hat.map ([], ·)).substitute_write hproper (hproper.mono ?_)
    rintro name attributes children ⟨hname, hattributes⟩
    obtain ⟨c, rest, rfl, hc⟩ := exists_cons_of_elementName hname
    refine ⟨fun s => ?_, fun s => ?_⟩
    · have hgt : ('>' : CodePoint) ∉ c :: rest ++ attributes.flatMap writeAttribute := by
        simp only [List.mem_append, List.mem_flatMap, not_or, not_exists, not_and]
        exact ⟨not_mem_elementName hname (by decide) (by decide), fun a ha => (angle_not_mem_writeAttribute (hattributes a ha)).2⟩
      have hfound := skipTag?_of_inside (List.cons_ne_nil c (rest ++ attributes.flatMap writeAttribute)) hgt s
      rw [openTag_append, ← List.append_assoc]
      exact congrArg (Option.map ([], ·)) hfound
    · have hgt : ('>' : CodePoint) ∉ ('/' : CodePoint) :: (c :: rest) := by
        rw [List.mem_cons, not_or]
        exact ⟨by decide, not_mem_elementName hname (by decide) (by decide)⟩
      have hfound := skipTag?_of_inside (List.cons_ne_nil ('/' : CodePoint) (c :: rest)) hgt s
      rw [closeTag_append]
      exact congrArg (Option.map ([], ·)) hfound
  rw [contentText, htags, Content.reshape_splice]
  exact filter_escape (by decide) content.innerText

theorem write_identifier (t : Text) : (identifier t).write = "<mi>" ++ escape t ++ "</mi>" := by
  have hclose : closeTag "mi" ++ escape [] = ("</mi>" : Text) := List.append_nil (closeTag "mi")
  rw [List.append_assoc, ← hclose]
  rfl

/-- Text elements that are not nested in one another become identifiers. -/
theorem flattenTextElements_write (hproper : content.Everywhere IsProper) (hunnested : content.Unnested "mtext") :
    flattenTextElements content.write = (content.reshape flattening).write := by
  have hmtext : isElementName "mtext" = true := by decide
  have hat : AtTags flattenText? := fun c s hc => by
    rw [flattenText?, atTags_skipOpenTag? "mtext" c s hc]
    rfl
  have hclosing : AtTags (Text.dropPrefix? · "</mtext>") := fun c s hc => if_neg hc
  rw [flattenTextElements, substitute_emptyText hproper]
  refine hat.substitute_write hproper (((hproper.and hproper.children).and hunnested).mono ?_)
  rintro name attributes children ⟨⟨⟨hname, hattributes⟩, hchildren⟩, hlacks⟩
  have hopen := fun s => skipOpenTag?_openTag hname hmtext (fun _ => by decide) hattributes s
  by_cases h : name = "mtext"
  · subst h
    rw [Follows, flattening, if_pos rfl]
    intro s
    have hpasses := hclosing.passes_write hchildren
      ((hchildren.and (hlacks rfl)).mono fun name attributes _ h =>
        ⟨fun s => dropPrefix?_openTag h.1.1 attributes "mtext" s, fun s =>
          (dropPrefix?_closeTag h.1.1 hmtext s).trans (if_neg h.2)⟩) (closeTag "mtext" ++ s)
    have hend : Text.breakAt? (Text.dropPrefix? · "</mtext>") (closeTag "mtext" ++ s) = some ([], s) :=
      Text.breakAt?_of_found ((dropPrefix?_closeTag hmtext hmtext s).trans (if_pos rfl))
    have hbreak : Text.breakOn? (children.write ++ (closeTag "mtext" ++ s)) "</mtext>" = some (children.write, s) := by
      rw [Text.breakOn?, hpasses.breakAt?, hend]
      simp
    rw [flattenText?, hopen, if_pos rfl, Option.bind_eq_bind, Option.bind_some, hbreak, Option.bind_eq_bind, Option.bind_some]
    dsimp only
    rw [contentText_write hchildren, write_identifier]
  · refine follows_of_none (if_neg h) (fun s => ?_) fun s => ?_
    · rw [flattenText?, hopen, if_neg h]
      rfl
    · rw [flattenText?, skipOpenTag?, skipWord?_closeTag hmtext]
      rfl

end EquationExport.Mathml
