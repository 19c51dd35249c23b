import EquationExport.Proofs.Splice.Place
import EquationExport.Proofs.Xml.Nesting

/-!
# Equations at the top

What is spliced in should be equations and nothing else: the elements at the top are `m:oMath` or `m:oMathPara`, and for
display mode there is one `m:oMathPara`, with none inside. Markup is put inside these elements unless it begins like
them. The beginning of the first tag decides, as text: a name that only starts like the name of an equation passes for
one, and what stands behind the first element is not looked at.
-/

namespace EquationExport.Splice

open EquationExport.Text Xml

variable {s t fragment mark : Text} {l l' : List (Nat × Token)}

/-! ### Elements at the top -/

/-- The name of an equation. -/
def equationName : WrittenName := (some ("m" : Text), "oMath")

/-- The name of a paragraph of equations. -/
def paragraphName : WrittenName := (some ("m" : Text), "oMathPara")

/-- A sequence of well-formed elements with the prefix `m`, with nothing but blanks between. -/
structure IsSequence (s : Text) (l : List (Nat × Token)) : Prop where
  closes : Closes [] s l
  top : ∀ token, (0, token) ∈ l → (∃ tag, token = .opening tag ∧ tag.name.1 = some ("m" : Text)) ∨ (∃ name, token = .closing name) ∨
    ∃ t : Text, token = .literal t ∧ t.all (·.isBlank) = true

/-- The elements at the top are equations or paragraphs of equations. -/
def IsInline (l : List (Nat × Token)) : Prop := ∀ name ∈ topNames l, name = equationName ∨ name = paragraphName

/-- One paragraph of equations is at the top, and none is inside. -/
def IsDisplay (l : List (Nat × Token)) : Prop :=
  topNames l = [paragraphName] ∧ ∀ e ∈ elementsOf l, e.2 = paragraphName → e.1 = 0

/-- The name of the first element starts with `mark` behind its prefix. -/
def StartsAs (mark : Text) (l : List (Nat × Token)) : Prop := ∃ name, (topNames l).head? = some name ∧ mark <+: name.2

/-! ### The beginning of the first tag -/

/-- Part of a name in front of a text that does not go on with it is the front of the name. -/
theorem prefix_name_iff {name rest : Text} (hmark : ∀ c ∈ mark, c.isNamePart = true) (hends : endsName rest = true) :
    mark <+: name ++ rest ↔ mark <+: name := by
  constructor
  · intro h
    rcases List.prefix_or_prefix_of_prefix h (List.prefix_append name rest) with hle | ⟨x, rfl⟩
    · exact hle
    · obtain hx := List.prefix_append_right_inj name |>.1 h
      cases x with
      | nil => simp
      | cons c x =>
        obtain ⟨more, rfl⟩ := hx
        have hpart := hmark c (List.mem_append_right _ List.mem_cons_self)
        simp [endsName, hpart] at hends
  · exact fun h => h.trans (List.prefix_append _ _)

/-- A tag begins with part of its name. -/
theorem prefix_tag_iff {tag : WrittenTag} {rest : Text} (h : openingTag? s = some (tag, rest)) (hqualifier : tag.name.1 = some ("m" : Text))
    (hmark : ∀ c ∈ mark, c.isNamePart = true) :
    ("<m:" : Text) ++ mark <+: CodePoint.ofChar '<' :: s ↔ mark <+: tag.name.2 := by
  obtain ⟨⟨name, behind⟩, hname, htag⟩ := Option.bind_eq_some_iff.1 h
  obtain ⟨⟨⟨attributes, closed⟩, rest'⟩, -, heq⟩ := Option.bind_eq_some_iff.1 htag
  obtain ⟨rfl, rfl⟩ := Prod.mk.inj (Option.some.inj heq)
  obtain ⟨-, rfl, hends⟩ := qualifiedName?_eq_some hname
  obtain ⟨qualifier, localPart⟩ := name
  obtain rfl : qualifier = some ("m" : Text) := hqualifier
  have hwritten : CodePoint.ofChar '<' :: (writeName (some ("m" : Text), localPart) ++ behind) = ("<m:" : Text) ++ (localPart ++ behind) := by
    simp only [writeName, Name.written, List.append_assoc]
    rfl
  rw [hwritten, List.prefix_append_right_inj, prefix_name_iff hmark hends]

/-- What is literal text at the front of a text without white space there is not blank. -/
theorem not_all_isBlank_of_literal {rest : Text} (hs : s ≠ []) (hspace : ∀ c, s.head? = some c → c.isSpace = false)
    (h : token? s = some (.literal t, rest)) : ¬ t.all (·.isBlank) = true := by
  intro hblank
  obtain ⟨u, rfl, hwritten, -⟩ := written_of_token? hs h
  generalize htoken : Token.literal t = token at hwritten
  cases hwritten with
  | @literal u hne =>
    obtain rfl := Token.literal.inj htoken
    obtain ⟨c, u, rfl⟩ := List.exists_cons_of_ne_nil hne
    have hc := hspace c rfl
    have hreturn : c ≠ '\r' := by
      rintro rfl
      exact absurd hc (by decide)
    rw [normalizeLineEnds, if_neg hreturn, List.all_cons, Bool.and_eq_true] at hblank
    rw [CodePoint.isSpace_of_isBlank hblank.1] at hc
    cases hc
  | _ => cases htoken

/-- The front of a sequence tells how the name of its first element starts. -/
theorem IsSequence.startsWith_iff (h : IsSequence s l) (hspace : ∀ c, s.head? = some c → c.isSpace = false) (hne : mark ≠ [])
    (hmark : ∀ c ∈ mark, c.isNamePart = true) : ("<m:" : Text) ++ mark <+: s ↔ StartsAs mark l := by
  obtain ⟨hcloses, htop⟩ := h
  cases hcloses with
  | done =>
    refine iff_of_false (fun hfront => ?_) ?_
    · exact hne (List.append_eq_nil_iff.1 (List.prefix_nil.1 hfront)).2
    · rintro ⟨name, hname, -⟩
      cases hname
  | @step _ names' _ rest token l hs htoken hnest hrest =>
    rw [List.length_nil, Nat.zero_min] at htop ⊢
    rcases htop token List.mem_cons_self with ⟨tag, rfl, hqualifier⟩ | ⟨name, rfl⟩ | ⟨t, rfl, hblank⟩
    · obtain ⟨u, rfl, hwritten, -⟩ := written_of_token? hs htoken
      generalize heq : Token.opening tag = token at hwritten
      cases hwritten with
      | opening _ _ htakes =>
        obtain rfl := Token.opening.inj heq
        rw [List.cons_append, prefix_tag_iff (htakes rest) hqualifier hmark]
        constructor
        · exact fun hfront => ⟨tag.name, rfl, hfront⟩
        · rintro ⟨name, hname, hfront⟩
          obtain rfl := Option.some.inj hname
          exact hfront
      | _ => cases heq
    · cases hnest
    · exact absurd hblank (not_all_isBlank_of_literal hs hspace htoken)

/-! ### The two elements -/

/-- Markup inside an equation. -/
def equation (s : Text) : Text := ("<m:oMath>" : Text) ++ s ++ ("</m:oMath>" : Text)

/-- Markup inside a paragraph of equations. -/
def paragraph (s : Text) : Text := ("<m:oMathPara>" : Text) ++ s ++ ("</m:oMathPara>" : Text)

/-- What markup holds once it stands inside an element without attributes. -/
theorem exists_closes_element (mark : Text) {name : WrittenName} (hopening : openingTag? mark = some (⟨name, [], false⟩, []))
    (hclosing : closingTag? mark = some (name, [])) (h : Closes [] s l) :
    ∃ l', Closes [] ((("<" : Text) ++ mark) ++ s ++ (("</" : Text) ++ mark)) l' ∧ topNames l' = [name] ∧
      elementsOf l' = (0, name) :: (elementsOf l).map fun e => (e.1 + 1, e.2) := by
  refine ⟨(0, .opening ⟨name, [], false⟩) :: (deeper 1 l ++ [(0, .closing name)]), ?_, topNames_enclose _ _ _,
    elementsOf_enclose _ _ _⟩
  have hinside := h.enclose hopening rfl List.nodup_nil hclosing
  rw [List.append_assoc, List.append_assoc]
  exact hinside

theorem exists_closes_equation (h : Closes [] s l) : ∃ l', Closes [] (equation s) l' ∧ topNames l' = [equationName] ∧
    elementsOf l' = (0, equationName) :: (elementsOf l).map fun e => (e.1 + 1, e.2) :=
  exists_closes_element "m:oMath>" rfl rfl h

theorem exists_closes_paragraph (h : Closes [] s l) : ∃ l', Closes [] (paragraph s) l' ∧ topNames l' = [paragraphName] ∧
    elementsOf l' = (0, paragraphName) :: (elementsOf l).map fun e => (e.1 + 1, e.2) :=
  exists_closes_element "m:oMathPara>" rfl rfl h

/-! ### Wrapping -/

/-- Markup with an equation at the front: itself, or inside one. -/
def inEquation (s : Text) : Text := if s.startsWith "<m:oMath" then s else equation s

/-- Markup with a paragraph of equations at the front: itself, or inside one. -/
def inParagraph (s : Text) : Text := if s.startsWith "<m:oMathPara" then s else paragraph s

theorem wrapOmml_false (omml : Text) : wrapOmml omml false = inEquation omml.trim := by
  simp [wrapOmml, inEquation, equation]

theorem wrapOmml_true (omml : Text) : wrapOmml omml true = inParagraph (inEquation omml.trim) := by
  unfold wrapOmml inParagraph inEquation equation paragraph
  simp only [Bool.true_and, Bool.not_eq_true', ← Bool.not_eq_true, ite_not]

theorem inEquation_of_isPrefix (h : ("<m:oMath" : Text) <+: s) : inEquation s = s := if_pos (dropPrefix?_isSome_iff.2 h)

theorem inEquation_of_not_isPrefix (h : ¬ ("<m:oMath" : Text) <+: s) : inEquation s = equation s :=
  if_neg fun hstarts => h (dropPrefix?_isSome_iff.1 hstarts)

theorem inParagraph_of_isPrefix (h : ("<m:oMathPara" : Text) <+: s) : inParagraph s = s := if_pos (dropPrefix?_isSome_iff.2 h)

theorem inParagraph_of_not_isPrefix (h : ¬ ("<m:oMathPara" : Text) <+: s) : inParagraph s = paragraph s :=
  if_neg fun hstarts => h (dropPrefix?_isSome_iff.1 hstarts)

theorem equation_isPrefix_of_paragraph (h : ("<m:oMathPara" : Text) <+: s) : ("<m:oMath" : Text) <+: s :=
  List.IsPrefix.trans (by decide) h

theorem equation_isPrefix_inEquation (s : Text) : ("<m:oMath" : Text) <+: inEquation s := by
  by_cases h : ("<m:oMath" : Text) <+: s
  · rwa [inEquation_of_isPrefix h]
  · rw [inEquation_of_not_isPrefix h, equation, List.append_assoc]
    exact List.IsPrefix.trans (by decide) (List.prefix_append _ _)

theorem paragraph_isPrefix_inParagraph (s : Text) : ("<m:oMathPara" : Text) <+: inParagraph s := by
  by_cases h : ("<m:oMathPara" : Text) <+: s
  · rwa [inParagraph_of_isPrefix h]
  · rw [inParagraph_of_not_isPrefix h, paragraph, List.append_assoc]
    exact List.IsPrefix.trans (by decide) (List.prefix_append _ _)

theorem not_paragraph_isPrefix_equation (s : Text) : ¬ ("<m:oMathPara" : Text) <+: equation s := by
  rintro ⟨rest, hrest⟩
  exact absurd (congrArg (·[8]?) hrest) (by simp [equation, Text.ofString, CodePoint.ofChar])

theorem trim_equation (s : Text) : (equation s).trim = equation s := by
  refine trim_eq_self (fun c hc => ?_) fun c hc => ?_
  · obtain rfl := Option.some.inj hc
    decide
  · rw [equation, List.getLast?_append_of_ne_nil _ (by decide)] at hc
    obtain rfl := Option.some.inj hc
    decide

theorem trim_paragraph (s : Text) : (paragraph s).trim = paragraph s := by
  refine trim_eq_self (fun c hc => ?_) fun c hc => ?_
  · obtain rfl := Option.some.inj hc
    decide
  · rw [paragraph, List.getLast?_append_of_ne_nil _ (by decide)] at hc
    obtain rfl := Option.some.inj hc
    decide

/-- Wrapping puts white space away, and brings none to the ends. -/
theorem trim_wrapOmml (omml : Text) (display : Bool) : (wrapOmml omml display).trim = wrapOmml omml display := by
  have hequation : (inEquation omml.trim).trim = inEquation omml.trim := by
    unfold inEquation
    split
    · exact trim_trim omml
    · exact trim_equation _
  cases display with
  | false => rw [wrapOmml_false, hequation]
  | true =>
    rw [wrapOmml_true, inParagraph]
    split
    · exact hequation
    · exact trim_paragraph _

/-- Wrapping markup again changes nothing. -/
theorem wrapOmml_wrapOmml (omml : Text) (display : Bool) : wrapOmml (wrapOmml omml display) display = wrapOmml omml display := by
  cases display with
  | false =>
    rw [wrapOmml_false (wrapOmml omml false), trim_wrapOmml, wrapOmml_false,
      inEquation_of_isPrefix (equation_isPrefix_inEquation omml.trim)]
  | true =>
    have hfront := paragraph_isPrefix_inParagraph (inEquation omml.trim)
    rw [wrapOmml_true (wrapOmml omml true), trim_wrapOmml, wrapOmml_true,
      inEquation_of_isPrefix (equation_isPrefix_of_paragraph hfront), inParagraph_of_isPrefix hfront]

/-- A paragraph around markup is the only one exactly if none is in the markup. -/
theorem isDisplay_iff {e : List (Nat × WrittenName)} (htop : topNames l' = [paragraphName])
    (helements : elementsOf l' = (0, paragraphName) :: e.map fun e => (e.1 + 1, e.2)) :
    IsDisplay l' ↔ ∀ x ∈ e, x.2 ≠ paragraphName := by
  rw [IsDisplay, and_iff_right htop, helements]
  constructor
  · intro h x hx hname
    exact absurd (h (x.1 + 1, x.2) (List.mem_cons_of_mem _ (List.mem_map.2 ⟨x, hx, rfl⟩)) hname) (Nat.succ_ne_zero _)
  · intro h x hx hname
    rcases List.mem_cons.1 hx with rfl | hx
    · rfl
    · obtain ⟨y, hy, rfl⟩ := List.mem_map.1 hx
      exact absurd hname (h y hy)

/-! ### The elements once wrapped -/

/-- Markup that is put inside an equation has that equation at the top, so only the other case is open. -/
theorem exists_isInline_iff (h : Closes [] s l) :
    (∃ l', Closes [] (inEquation s) l' ∧ IsInline l') ↔ (("<m:oMath" : Text) <+: s → IsInline l) := by
  by_cases hfront : ("<m:oMath" : Text) <+: s
  · rw [inEquation_of_isPrefix hfront, h.exists_and_iff, forall_prop_of_true hfront]
  · rw [inEquation_of_not_isPrefix hfront]
    obtain ⟨l', hcloses, htop, -⟩ := exists_closes_equation h
    refine iff_of_true ⟨l', hcloses, fun name hname => ?_⟩ fun hstarts => absurd hstarts hfront
    rw [htop] at hname
    exact .inl (List.mem_singleton.1 hname)

/-- Putting markup inside an equation brings no paragraph of equations in. -/
theorem exists_closes_inEquation (h : Closes [] s l) : ∃ l', Closes [] (inEquation s) l' ∧
    ((∀ e ∈ elementsOf l', e.2 ≠ paragraphName) ↔ ∀ e ∈ elementsOf l, e.2 ≠ paragraphName) := by
  by_cases hfront : ("<m:oMath" : Text) <+: s
  · rw [inEquation_of_isPrefix hfront]
    exact ⟨l, h, Iff.rfl⟩
  · rw [inEquation_of_not_isPrefix hfront]
    obtain ⟨l', hcloses, -, helements⟩ := exists_closes_equation h
    refine ⟨l', hcloses, ?_⟩
    rw [helements, List.forall_mem_cons, and_iff_right (by decide), List.forall_mem_map]

theorem not_paragraph_isPrefix_inEquation (h : ¬ ("<m:oMathPara" : Text) <+: s) : ¬ ("<m:oMathPara" : Text) <+: inEquation s := by
  by_cases hfront : ("<m:oMath" : Text) <+: s
  · rwa [inEquation_of_isPrefix hfront]
  · rw [inEquation_of_not_isPrefix hfront]
    exact not_paragraph_isPrefix_equation s

/-- Markup that begins like a paragraph of equations is left alone; other markup must not have one inside. -/
theorem exists_isDisplay_iff (h : Closes [] s l) :
    (∃ l', Closes [] (inParagraph (inEquation s)) l' ∧ IsDisplay l') ↔
      (("<m:oMathPara" : Text) <+: s → IsDisplay l) ∧
        (¬ ("<m:oMathPara" : Text) <+: s → ∀ e ∈ elementsOf l, e.2 ≠ paragraphName) := by
  by_cases hfront : ("<m:oMathPara" : Text) <+: s
  · rw [inEquation_of_isPrefix (equation_isPrefix_of_paragraph hfront), inParagraph_of_isPrefix hfront, h.exists_and_iff,
      forall_prop_of_true hfront, and_iff_left fun hnot => absurd hfront hnot]
  · obtain ⟨l₁, hinside, hnames⟩ := exists_closes_inEquation h
    obtain ⟨l', hcloses, htop, helements⟩ := exists_closes_paragraph hinside
    rw [inParagraph_of_not_isPrefix (not_paragraph_isPrefix_inEquation hfront), hcloses.exists_and_iff,
      isDisplay_iff htop helements, hnames, forall_prop_of_true hfront, and_iff_right fun hstarts => absurd hstarts hfront]

/--
What is wrapped has equations at the top only, exactly if the fragment has, or its first name does not start like that of
an equation. For display there is one paragraph of equations, exactly if the fragment is one, or its first name does not
start like that of one and no paragraph is inside. Wrapping again changes nothing.
-/
theorem wrapOmml_isInline_iff (h : IsSequence fragment.trim l) :
    ((∃ l', Closes [] (wrapOmml fragment false) l' ∧ IsInline l') ↔ (StartsAs "oMath" l → IsInline l)) ∧
    ((∃ l', Closes [] (wrapOmml fragment true) l' ∧ IsDisplay l') ↔
      (StartsAs "oMathPara" l → IsDisplay l) ∧
        (¬ StartsAs "oMathPara" l → ∀ e ∈ elementsOf l, e.2 ≠ paragraphName)) ∧
    ∀ display, wrapOmml (wrapOmml fragment display) display = wrapOmml fragment display := by
  have hspace : ∀ c, fragment.trim.head? = some c → c.isSpace = false := fun c => isSpace_of_head?_trim
  have hequation : ("<m:oMath" : Text) <+: fragment.trim ↔ StartsAs "oMath" l :=
    h.startsWith_iff hspace (by decide) (by decide)
  have hparagraph : ("<m:oMathPara" : Text) <+: fragment.trim ↔ StartsAs "oMathPara" l :=
    h.startsWith_iff hspace (by decide) (by decide)
  refine ⟨?_, ?_, wrapOmml_wrapOmml fragment⟩
  · rw [wrapOmml_false, ← hequation]
    exact exists_isInline_iff h.closes
  · rw [wrapOmml_true, ← hparagraph]
    exact exists_isDisplay_iff h.closes

/-- Two runs, with white space around and between them. -/
theorem wrapOmml_two_runs :
    ∃ l, IsSequence (Text.trim " <m:r/> <m:r/>") l ∧ ¬ StartsAs "oMath" l ∧
      (∃ l', Closes [] (wrapOmml " <m:r/> <m:r/>" false) l' ∧ IsInline l') ∧
      ∃ l', Closes [] (wrapOmml " <m:r/> <m:r/>" true) l' ∧ IsDisplay l' := by
  let run : WrittenTag := ⟨(some ("m" : Text), "r"), [], true⟩
  have hfirst : token? "<m:r/> <m:r/>" = some (Token.opening run, (" <m:r/>" : Text)) := rfl
  have hblank : token? " <m:r/>" = some (Token.literal " ", ("<m:r/>" : Text)) := rfl
  have hsecond : token? "<m:r/>" = some (Token.opening run, []) := rfl
  have htrim : Text.trim " <m:r/> <m:r/>" = "<m:r/> <m:r/>" := by decide
  have hsequence : IsSequence (Text.trim " <m:r/> <m:r/>") [(0, .opening run), (0, .literal " "), (0, .opening run)] := by
    rw [htrim]
    refine ⟨.step (by decide) hfirst rfl (.step (by decide) hblank rfl (.step (by decide) hsecond rfl .done)), ?_⟩
    intro token htoken
    simp only [List.mem_cons, Prod.mk.injEq, true_and, List.not_mem_nil, or_false] at htoken
    rcases htoken with rfl | rfl | rfl
    · exact .inl ⟨run, rfl, rfl⟩
    · exact .inr (.inr ⟨" ", rfl, by decide⟩)
    · exact .inl ⟨run, rfl, rfl⟩
  have hstarts : ∀ mark : Text, ¬ mark <+: ("r" : Text) →
      ¬ StartsAs mark [(0, .opening run), (0, .literal " "), (0, .opening run)] := by
    rintro mark hmark ⟨name, hname, hfront⟩
    obtain rfl := Option.some.inj hname
    exact hmark hfront
  obtain ⟨hinline, hdisplay, -⟩ := wrapOmml_isInline_iff hsequence
  refine ⟨_, hsequence, hstarts _ (by decide), hinline.2 fun h => absurd h (hstarts _ (by decide)), hdisplay.2 ⟨?_, ?_⟩⟩
  · exact fun h => absurd h (hstarts _ (by decide))
  · exact fun _ => by decide

/-- The properties of a paragraph of equations, with no paragraph around: the name only starts like that of an equation. -/
theorem wrapOmml_paragraph_properties :
    (∃ l, IsSequence (Text.trim "<m:oMathParaPr/>") l) ∧
      ¬ ∃ l', Closes [] (wrapOmml "<m:oMathParaPr/>" false) l' ∧ IsInline l' := by
  let properties : WrittenTag := ⟨(some ("m" : Text), "oMathParaPr"), [], true⟩
  have htoken : token? "<m:oMathParaPr/>" = some (Token.opening properties, []) := rfl
  have hcloses : Closes [] "<m:oMathParaPr/>" [(0, .opening properties)] := .step (by decide) htoken rfl .done
  have htrim : Text.trim "<m:oMathParaPr/>" = "<m:oMathParaPr/>" := by decide
  have hwrap : wrapOmml "<m:oMathParaPr/>" false = "<m:oMathParaPr/>" := by decide
  refine ⟨⟨[(0, .opening properties)], htrim ▸ hcloses, fun token htoken => ?_⟩, ?_⟩
  · obtain ⟨-, rfl⟩ := Prod.mk.inj (List.mem_singleton.1 htoken)
    exact .inl ⟨properties, rfl, rfl⟩
  · rw [hwrap]
    rintro ⟨l', hcloses', hinline⟩
    obtain rfl := hcloses.unique hcloses'
    exact absurd (hinline properties.name List.mem_cons_self) (by decide)

end EquationExport.Splice
