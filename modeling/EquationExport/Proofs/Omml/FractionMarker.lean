import EquationExport.Omml.Element
import EquationExport.Proofs.Text.Passing
import EquationExport.Proofs.Xml.Opened

/-!
# Fractions in written markup and in the tree

Whether equation markup holds a fraction is asked of the written markup, where the front of a tag `<m:f` is looked for,
and of the tree that is read from it. In markup that can be read an angle bracket opens nothing but a token: text,
references, values and the inside of tags hold none. So the two tests agree, as long as the qualifier `m` means
equation markup and nothing else does, and no comment, instruction or section of literal text is there to hold what
looks like a tag. Names past ASCII are excluded, since U+1680 both stands in names and counts as white space, so that
a longer name can look like `m:f` to the test on written markup.
-/

namespace EquationExport.Omml

open Xml Node

variable {s t rest omml : Text} {scope : Scope} {f : Fragment}

/-! ### The test on written markup -/

/-- The code point ends the name of a tag, going by the test on written markup. -/
def endsMarker (c : CodePoint) : Bool := c.isSpace || c == '/' || c == '>'

/-- What follows the front of the tag of a fraction and one code point more. -/
def skipFractionMarker? (s : Text) : Option Text :=
  match s.dropPrefix? "<m:f" with
  | some (c :: rest) => if endsMarker c then some rest else none
  | _ => none

theorem hasFractionMarker_eq (s : Text) : hasFractionMarker s = s.holds skipFractionMarker? := rfl

theorem skipFractionMarker?_isSome : (skipFractionMarker? s).isSome = true ↔
    ∃ c rest, s = ("<m:f" : Text) ++ c :: rest ∧ endsMarker c = true := by
  unfold skipFractionMarker?
  constructor
  · intro h
    split at h
    · next c rest hdrop =>
      split at h
      · next hends => exact ⟨c, rest, Text.eq_append_of_dropPrefix? hdrop, hends⟩
      · cases h
    · cases h
  · rintro ⟨c, rest, rfl, hends⟩
    rw [Text.dropPrefix?_append]
    simp [hends]

theorem skipFractionMarker?_of_ne {c : CodePoint} (hc : c ≠ '<') (s : Text) : skipFractionMarker? (c :: s) = none := by
  have hdrop : Text.dropPrefix? (c :: s) "<m:f" = none := if_neg hc
  rw [skipFractionMarker?, hdrop]

/-- No tag starts in a text without angle brackets. -/
theorem passes_of_no_bracket {u : Text} (hu : ∀ c ∈ u, c ≠ '<') (s : Text) : Text.Passes skipFractionMarker? u s := by
  intro v hv hsuffix
  obtain ⟨c, v, rfl⟩ := List.exists_cons_of_ne_nil hv
  exact skipFractionMarker?_of_ne (hu c (hsuffix.subset List.mem_cons_self)) _

theorem holds_append_of_passes {found? : Text → Option α} {u : Text} (h : Text.Passes found? u s) :
    Text.holds (u ++ s) found? = s.holds found? := by
  rw [Text.holds, Text.holds, h.breakAt?]
  cases Text.breakAt? found? s <;> rfl

theorem holds_cons (found? : Text → Option α) (c : CodePoint) (s : Text) :
    Text.holds (c :: s) found? = ((found? (c :: s)).isSome || s.holds found?) := by
  rw [Text.holds, Text.holds, Text.breakAt?]
  cases found? (c :: s) with
  | some a => rfl
  | none => cases Text.breakAt? found? s <;> rfl

/-! ### What a qualifier means -/

/-- The qualifier of equation markup is `m`, and no other means the same. -/
def BindsMath (scope : Scope) : Prop := ∀ q, scope.find? q = some mathNamespace ↔ q = some "m"

/-- No declaration on the tag gives `m` another meaning, or its meaning to another qualifier or to none. -/
def KeepsMath (tag : Tag) : Prop := ∀ d ∈ tag.declarations, d.qualifier = some "m" ↔ d.space = mathNamespace

instance (tag : Tag) : Decidable (KeepsMath tag) :=
  inferInstanceAs (Decidable (∀ d ∈ tag.declarations, d.qualifier = some "m" ↔ d.space = mathNamespace))

theorem bindsMath_cons {d : Declaration} (h : BindsMath scope) (hd : d.qualifier = some "m" ↔ d.space = mathNamespace) :
    BindsMath (d :: scope) := by
  intro q
  have hrest := h q
  unfold Scope.find? at hrest ⊢
  split
  · next hxml =>
    rw [if_pos hxml] at hrest
    exact hrest
  · next hxml =>
    rw [if_neg hxml] at hrest
    by_cases hq : d.qualifier = q
    · rw [List.find?_cons_of_pos (by simpa using hq)]
      dsimp only
      rw [← hq, hd]
      split
      · next hempty =>
        rw [List.isEmpty_iff.1 hempty]
        decide
      · exact ⟨Option.some.inj, congrArg some⟩
    · rw [List.find?_cons_of_neg (by simpa using hq)]
      exact hrest

theorem BindsMath.append {declarations : List Declaration} (h : BindsMath scope)
    (hd : ∀ d ∈ declarations, d.qualifier = some "m" ↔ d.space = mathNamespace) : BindsMath (declarations ++ scope) := by
  induction declarations with
  | nil => exact h
  | cons d declarations ih =>
    exact bindsMath_cons (ih fun d hd' => hd d (List.mem_cons_of_mem _ hd')) (hd d List.mem_cons_self)

theorem bindsMath_knownQualifiers : BindsMath knownQualifiers := by
  intro q
  constructor
  · intro h
    -- the namespace of equation markup is told from the others by its length
    have hlength : ∀ d ∈ knownQualifiers, d.space.length = mathNamespace.length → d.qualifier = some "m" := by decide +kernel
    have hmath : ∀ d ∈ knownQualifiers, d.space = mathNamespace → d.qualifier = some "m" :=
      fun d hd hspace => hlength d hd (congrArg List.length hspace)
    unfold Scope.find? at h
    split at h
    · exact absurd h (by decide)
    · split at h
      · next d hfind =>
        have hqualifier := List.find?_some hfind
        rw [beq_iff_eq] at hqualifier
        split at h
        · cases h
        · rw [← hqualifier]
          exact hmath d (List.mem_of_find?_eq_some hfind) (Option.some.inj h)
      · cases h
  · rintro rfl
    rfl

/-- An element that is opened adds its declarations to the scope, in which its name is resolved. -/
theorem exists_of_resolve? {written : WrittenTag} {tag : Tag} {inner : Scope} (h : resolve? scope written = some (tag, inner)) :
    inner = tag.declarations ++ scope ∧ elementName? inner written.name = some tag.name := by
  unfold resolve? at h
  dsimp only at h
  split at h
  · cases h
  · obtain ⟨name, hname, h⟩ := Option.bind_eq_some_iff.1 h
    obtain ⟨attributes, -, h⟩ := Option.bind_eq_some_iff.1 h
    split at h
    · obtain ⟨rfl, rfl⟩ := Prod.mk.inj (Option.some.inj h)
      exact ⟨rfl, hname⟩
    · cases h

/-- The element is a fraction. -/
def isFractionTag (tag : Tag) : Bool := tag.name.localPart == "f" && tag.name.space == some mathNamespace

/-- The name of a fraction, as it is written. -/
def fractionName : WrittenName := (some "m", "f")

theorem isFractionTag_iff {written : WrittenName} {tag : Tag} (hscope : BindsMath scope)
    (h : elementName? scope written = some tag.name) : isFractionTag tag = true ↔ written = fractionName := by
  obtain ⟨qualifier, localPart⟩ := written
  rw [isFractionTag, Bool.and_eq_true, beq_iff_eq, beq_iff_eq, fractionName, Prod.mk.injEq]
  cases qualifier with
  | none =>
    have hnone : scope.find? none ≠ some mathNamespace := fun hfind => by cases (hscope none).1 hfind
    rw [← Option.some.inj h]
    exact ⟨fun hfraction => absurd hfraction.2 hnone, fun hname => by cases hname.1⟩
  | some q =>
    obtain ⟨space, hfind, hname⟩ := Option.map_eq_some_iff.1 h
    rw [← hname, and_comm]
    have hq := hscope (some q)
    rw [hfind] at hq
    exact and_congr_left fun _ => hq

/-! ### Tokens -/

/-- White space and the marks that end a tag stand in no name, as far as ASCII goes. -/
theorem endsName_of_endsMarker {c : CodePoint} (hc : endsMarker c = true) (hascii : c.isNamePart = true → c.val < 0x80)
    (s : Text) : endsName (c :: s) = true := by
  have hall : ∀ n < 0x80, endsMarker (.ofNat n) = true → (CodePoint.ofNat n).isNamePart = false := by decide +kernel
  have hpart : c.isNamePart = false := by
    rw [← Bool.not_eq_true]
    intro hpart
    have hnot := hall c.val (hascii hpart)
    rw [CodePoint.ofNat_val, hpart] at hnot
    cases hnot hc
  have hcolon : c ≠ ':' := by
    rintro rfl
    exact absurd hc (by decide)
  simp [endsName, hpart, hcolon]

/-- A name goes on as long as what follows may stand in it. -/
theorem mem_of_endsName {name t : Text} {c d : CodePoint} {more rest : Text} (h : name ++ c :: more = t ++ d :: rest)
    (hends : endsName (c :: more) = true) (ht : ∀ x ∈ t, x.isNamePart = true ∨ x = ':') (hd : d.isNamePart = true) :
    d ∈ name := by
  have hfront : t ++ [d] <+: name ++ c :: more := ⟨rest, by simp [h]⟩
  rcases List.prefix_or_prefix_of_prefix hfront (List.prefix_append name _) with hle | ⟨behind, hbehind⟩
  · exact hle.subset (by simp)
  · cases behind with
    | nil =>
      rw [List.append_nil] at hbehind
      rw [hbehind]
      simp
    | cons x behind =>
      rw [← hbehind, List.prefix_append_right_inj] at hfront
      obtain ⟨rfl, -⟩ := List.cons_prefix_cons.1 hfront
      have hmem : x ∈ t ++ [d] := by
        rw [← hbehind]
        simp
      have hx : x.isNamePart = true ∨ x = ':' := by
        rcases List.mem_append.1 hmem with hmem | hmem
        · exact ht x hmem
        · rw [List.mem_singleton.1 hmem]
          exact .inl hd
      simp only [endsName, List.head?_cons, Option.all_some, Bool.and_eq_true, Bool.not_eq_true', bne_iff_ne] at hends
      rcases hx with hx | hx
      · rw [hends.1] at hx
        cases hx
      · exact absurd hx hends.2

/-- The front of the tag of a fraction is there exactly if the name of the tag is that of a fraction. -/
theorem skipFractionMarker?_opening {u : Text} {tag : WrittenTag} (htakes : Takes openingTag? u tag)
    (hascii : ∀ c ∈ writeName tag.name, c.val < 0x80) (rest : Text) :
    (skipFractionMarker? (('<' : CodePoint) :: (u ++ rest))).isSome = true ↔ tag.name = fractionName := by
  obtain ⟨⟨name, behind⟩, hname, h⟩ := Option.bind_eq_some_iff.1 (htakes rest)
  obtain ⟨⟨found, behind'⟩, hattributes, h⟩ := Option.bind_eq_some_iff.1 h
  obtain ⟨rfl, -⟩ := Prod.mk.inj (Option.some.inj h)
  obtain ⟨c, more, rfl, hc⟩ := exists_cons_of_attributes? hattributes
  obtain ⟨hqualified, hsplit, hends⟩ := qualifiedName?_eq_some hname
  rw [skipFractionMarker?_isSome]
  constructor
  · rintro ⟨d, rest', heq, hd⟩
    have hread : writeName name ++ c :: more = ("m:f" : Text) ++ d :: rest' := by
      rw [← hsplit]
      exact (List.cons_eq_cons.1 heq).2
    have hend : endsName (d :: rest') = true := by
      refine endsName_of_endsMarker hd (fun hpart => hascii d ?_) rest'
      exact mem_of_endsName hread hends (by decide) hpart
    have hqualified : isQualifiedName (Name.parts ⟨some "m", none, "f"⟩) = true := by decide
    have hfraction := qualifiedName?_written hqualified hend
    rw [hsplit, hread] at hname
    exact (Prod.mk.inj (Option.some.inj (hname.symm.trans hfraction))).1
  · rintro rfl
    refine ⟨c, more, ?_, ?_⟩
    · rw [hsplit]
      rfl
    · rcases hc with hblank | rfl | rfl
      · simp [endsMarker, CodePoint.isSpace_of_isBlank hblank]
      · rfl
      · rfl

/-- What announces a comment, a section of literal text or an instruction. -/
def announcements : List Text := ["<!--", "<![CDATA[", "<?"]

/-- The front of the tag of a fraction is found in the token, if it is an opening tag of that name, or behind it. -/
theorem hasFractionMarker_opening {u : Text} {tag : WrittenTag} (hclear : ∀ c ∈ u, c ≠ '<') (htakes : Takes openingTag? u tag)
    (hascii : ∀ c ∈ writeName tag.name, c.val < 0x80) (rest : Text) :
    hasFractionMarker (('<' : CodePoint) :: (u ++ rest)) = true ↔ tag.name = fractionName ∨ hasFractionMarker rest = true := by
  rw [hasFractionMarker_eq, holds_cons, Bool.or_eq_true, skipFractionMarker?_opening htakes hascii,
    holds_append_of_passes (passes_of_no_bracket hclear rest)]
  rfl

/-- In other tokens it is not found. -/
theorem hasFractionMarker_token {u : Text} {token : Token} (hwritten : token.Written u) (hopening : ∀ tag, token ≠ .opening tag)
    (hplain : ∀ mark ∈ announcements, ¬ mark <:+: u ++ rest) :
    hasFractionMarker (u ++ rest) = hasFractionMarker rest ∧ ∀ n, token ≠ .note n := by
  have hannounced : ∀ mark ∈ announcements, ∀ v, u ≠ mark ++ v := by
    rintro mark hmark v rfl
    exact hplain mark hmark ⟨[], v ++ rest, by simp⟩
  cases hwritten with
  | literal _ hclear _ =>
    have hclear' : ∀ c ∈ u, c ≠ '<' := fun c hc => ne_bracket_of_isLiteralPoint (hclear c hc)
    exact ⟨holds_append_of_passes (passes_of_no_bracket hclear' rest), by simp⟩
  | @character u c hclear _ =>
    refine ⟨?_, by simp⟩
    have hamp : skipFractionMarker? (('&' : CodePoint) :: (u ++ rest)) = none := skipFractionMarker?_of_ne (by decide) _
    rw [List.cons_append, hasFractionMarker_eq, holds_cons, hamp, holds_append_of_passes (passes_of_no_bracket hclear rest)]
    rfl
  | verbatim => exact absurd rfl (hannounced "<![CDATA[" (by decide) _)
  | comment => exact absurd rfl (hannounced "<!--" (by decide) _)
  | instruction => exact absurd rfl (hannounced "<?" (by decide) _)
  | opening => exact absurd rfl (hopening _)
  | @closing u name hclear _ =>
    refine ⟨?_, by simp⟩
    have hslash : ∀ c ∈ ('/' : CodePoint) :: u, c ≠ '<' := by
      intro c hc
      rcases List.mem_cons.1 hc with rfl | hc
      · decide
      · exact hclear c hc
    have hmark : skipFractionMarker? (('<' : CodePoint) :: (('/' : CodePoint) :: u ++ rest)) = none := by
      have hdrop : Text.dropPrefix? (('<' : CodePoint) :: (('/' : CodePoint) :: u ++ rest)) "<m:f" = none := by
        simp [Text.dropPrefix?, Text.ofString, CodePoint.ofChar]
      rw [skipFractionMarker?, hdrop]
    show hasFractionMarker (('<' : CodePoint) :: (('/' : CodePoint) :: u ++ rest)) = _
    rw [hasFractionMarker_eq, holds_cons, hmark, holds_append_of_passes (passes_of_no_bracket hslash rest)]
    rfl

/-! ### Runs -/

/-- The name of the element is in ASCII, and the tag leaves the meaning of `m` as it is. -/
structure IsUsualTag (tag : Tag) : Prop where
  ascii : ∀ c ∈ tag.name.written, c.val < 0x80
  keeps : KeepsMath tag

/-- What a reader meets on its way holds a fraction exactly if the front of the tag of one is found in the text. -/
theorem exists_tags_of_steps {r last : Reader} {ending : Text} (hsteps : Reader.Steps r s last ending) (hending : ending = [])
    (hplain : ∀ mark ∈ announcements, ¬ mark <:+: s) :
    ∃ met, last.tags = r.tags ++ met ∧ ((∀ tag ∈ met, IsUsualTag tag) → (∀ scope ∈ r.scopes, BindsMath scope) →
      (hasFractionMarker s = true ↔ ∃ tag ∈ met, isFractionTag tag = true)) := by
  induction hsteps with
  | refl r s =>
    subst hending
    exact ⟨[], (List.append_nil _).symm, fun _ _ => ⟨fun h => (by cases h), fun ⟨tag, htag, _⟩ => (by cases htag)⟩⟩
  | @head r r' last s s' ending hstep hlength hrest ih =>
    have hs : s ≠ [] := by
      rintro rfl
      exact absurd hlength (Nat.not_lt_zero _)
    obtain ⟨token, htoken, htake⟩ := Reader.exists_of_step? hstep
    obtain ⟨u, rfl, hwritten, -⟩ := written_of_token? hs htoken
    obtain ⟨met, htags, hmet⟩ := ih hending fun mark hmark hstands =>
      hplain mark hmark (hstands.trans (List.suffix_append u s').isInfix)
    by_cases hopening : ∃ tag, token = .opening tag
    · obtain ⟨written, rfl⟩ := hopening
      obtain ⟨tag, inner, hresolve, hopened, hscopes⟩ := Reader.tags_openElement? htake
      refine ⟨tag :: met, by rw [htags, hopened, List.append_assoc]; rfl, fun husual hbinds => ?_⟩
      obtain ⟨hascii, hkeeps⟩ := husual tag List.mem_cons_self
      obtain ⟨rfl, hname⟩ := exists_of_resolve? hresolve
      have hinner : BindsMath (tag.declarations ++ r.innermost.scope) := (hbinds _ List.mem_cons_self).append hkeeps
      have hbinds' : ∀ scope ∈ r'.scopes, BindsMath scope := by
        intro scope hscope
        rcases List.mem_cons.1 (hscopes hscope) with rfl | hscope
        · exact hinner
        · exact hbinds scope hscope
      cases hwritten with
      | opening hne hclear htakes =>
        have hascii' : ∀ c ∈ writeName written.name, c.val < 0x80 := by
          rw [← parts_of_elementName? hname]
          exact hascii
        rw [List.cons_append, hasFractionMarker_opening hclear htakes hascii', ← isFractionTag_iff hinner hname,
          hmet (fun tag htag => husual tag (List.mem_cons_of_mem _ htag)) hbinds', List.exists_mem_cons_iff]
    · obtain ⟨hmarker, hnote⟩ := hasFractionMarker_token hwritten (not_exists.1 hopening) hplain
      obtain ⟨hsame, hscopes⟩ := Reader.tags_take? (not_exists.1 hopening) hnote htake
      refine ⟨met, by rw [htags, hsame], fun husual hbinds => ?_⟩
      rw [hmarker]
      exact hmet husual fun scope hscope => hbinds scope (hscopes hscope)

/-- A fragment holds a fraction if one of its tags is that of a fraction. -/
theorem Fragment.hasFraction_iff (f : Fragment) :
    f.hasFraction = true ↔ ∃ tag ∈ tagsOf f.children, isFractionTag tag = true := by
  have hnamed : ∀ n : Node, n.isNamed "f" = n.tag?.any isFractionTag := fun n => by cases n <;> rfl
  rw [Fragment.hasFraction, List.any_eq_true]
  constructor
  · rintro ⟨n, hn, hfraction⟩
    rw [hnamed, Option.any_eq_true] at hfraction
    obtain ⟨tag, htag, hfraction⟩ := hfraction
    exact ⟨tag, mem_tagsOf.2 ⟨n, hn, htag⟩, hfraction⟩
  · rintro ⟨tag, htag, hfraction⟩
    obtain ⟨n, hn, htag⟩ := mem_tagsOf.1 htag
    exact ⟨n, hn, by rw [hnamed, htag]; exact hfraction⟩

theorem dropXmlDeclaration_of_plain (h : ∀ mark ∈ announcements, ¬ mark <:+: omml) : dropXmlDeclaration omml = omml := by
  unfold dropXmlDeclaration
  split
  · next r hdrop =>
    have hfront : ("<?" : Text) <+: omml.trimStart := ⟨("xml" : Text) ++ r, (Text.eq_append_of_dropPrefix? hdrop).symm⟩
    exact absurd (hfront.isInfix.trans (List.dropWhile_suffix _).isInfix) (h "<?" (by decide))
  · rfl

/-- A reader before the content of a fragment. -/
def Fragment.reader : Reader := .start ⟨⟨none, none, rootName⟩, [], []⟩ knownQualifiers

/--
The test on written markup and the test on the tree agree on every fragment that can be read, if its elements have names
in ASCII, nothing but tags and text is in it, and no declaration in it gives `m` another meaning or another qualifier
the meaning of `m`.
-/
theorem hasFractionMarker_eq_hasFraction (hparse : Fragment.parse? omml = some f)
    (hascii : ∀ n ∈ f.nodes, ∀ name ∈ n.name?, ∀ c ∈ name.written, c.val < 0x80)
    (hplain : ∀ mark ∈ announcements, ¬ mark <:+: omml) (hkeeps : ∀ n ∈ f.nodes, ∀ tag ∈ n.tag?, KeepsMath tag) :
    hasFractionMarker omml = f.hasFraction := by
  obtain ⟨⟨text, children⟩, hread, rfl⟩ := Option.map_eq_some_iff.1 hparse
  rw [dropXmlDeclaration_of_plain hplain] at hread
  obtain ⟨last, hsteps, hcontent⟩ := readContent?_eq_some_iff.1 hread
  obtain ⟨met, htags, hmet⟩ := exists_tags_of_steps hsteps rfl hplain
  have hmetTags : tagsOf children = met := by
    have hpieces : tagsOf children = last.pieces.reverse.flatMap Piece.tags := by rw [← tagsOf_assemble, hcontent]
    rw [hpieces]
    exact (List.cons_eq_cons.1 htags).2
  have husual : ∀ tag ∈ met, IsUsualTag tag := by
    intro tag htag
    obtain ⟨n, hn, hntag⟩ := mem_tagsOf.1 (hmetTags ▸ htag)
    exact ⟨hascii n hn tag.name (by simp [name?, hntag]), hkeeps n hn tag hntag⟩
  have hbinds : ∀ scope ∈ Fragment.reader.scopes, BindsMath scope := by
    intro scope hscope
    rw [List.mem_singleton.1 hscope]
    exact bindsMath_knownQualifiers
  rw [Bool.eq_iff_iff, hmet husual hbinds, Fragment.hasFraction_iff, hmetTags]

/-- A fraction beside a value that shows the front of a tag, a longer name and a redundant declaration. -/
def quotedFraction : Text :=
  ("<m:func xmlns:m=\"http://schemas.openxmlformats.org/officeDocument/2006/math\">" : Text) ++
    "<m:fName w:a=\"&lt;m:f>\"/><m:e><m:f\n/></m:e></m:func>"

theorem hasFractionMarker_eq_hasFraction_quotedFraction :
    ∃ f : Fragment, Fragment.parse? quotedFraction = some f ∧ f.hasFraction = true ∧
      hasFractionMarker quotedFraction = f.hasFraction := by
  have hread : (Fragment.parse? quotedFraction).any (fun f => decide (f.hasFraction = true ∧
      (∀ n ∈ f.nodes, ∀ name ∈ n.name?, ∀ c ∈ name.written, c.val < 0x80) ∧
      ∀ n ∈ f.nodes, ∀ tag ∈ n.tag?, KeepsMath tag)) = true := by decide +kernel
  obtain ⟨f, hparse, hf⟩ := (Option.any_eq_true _ _).1 hread
  obtain ⟨hfraction, hascii, hkeeps⟩ := of_decide_eq_true hf
  exact ⟨f, hparse, hfraction, hasFractionMarker_eq_hasFraction hparse hascii (by decide +kernel) hkeeps⟩

end EquationExport.Omml
