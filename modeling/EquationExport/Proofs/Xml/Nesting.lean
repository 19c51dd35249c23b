import EquationExport.Proofs.Xml.Tokens

/-!
# How elements nest

Markup is well-formed if it is read token by token to its end, every closing tag closes the element that was opened last,
none is left open, and the attributes of a tag have different names. How deep the elements nest is left open here, and what
their prefixes stand for. Each token is put down with the number of elements around it, so that the elements at the top can
be told from those inside.

Markup can be put inside an element, or in front of other markup: its tokens stay the same, deeper by what is around them.
-/

namespace EquationExport.Xml

variable {names names' base : List WrittenName} {s t u rest : Text} {token : Token} {l l' : List (Nat × Token)}
  {tag : WrittenTag} {name : WrittenName}

/-! ### Tokens and open elements -/

/-- The names of the elements that are open behind a token, the innermost first, if the token fits those open before. -/
def Token.nest? (names : List WrittenName) : Token → Option (List WrittenName)
  | .opening tag => if (tag.attributes.map (·.1)).Nodup then (if tag.closed then some names else some (tag.name :: names)) else none
  | .closing name => match names with
    | [] => none
    | innermost :: outer => if innermost = name then some outer else none
  | _ => some names

/--
The text, read inside the elements of these names, closes them all and leaves none open. These are its tokens, each with the
number of elements around it.
-/
inductive Closes : List WrittenName → Text → List (Nat × Token) → Prop where
  | done : Closes [] [] []
  | step {names names' : List WrittenName} {s rest : Text} {token : Token} {l : List (Nat × Token)} : s ≠ [] →
    token? s = some (token, rest) → token.nest? names = some names' → Closes names' rest l →
    Closes names s ((min names.length names'.length, token) :: l)

/-- A text is read in one way. -/
theorem Closes.unique (h : Closes names s l) (h' : Closes names s l') : l = l' := by
  induction h generalizing l' with
  | done =>
    cases h' with
    | done => rfl
    | step hne => exact absurd rfl hne
  | step hne htoken hnest _ ih =>
    cases h' with
    | done => exact absurd rfl hne
    | step _ htoken' hnest' hrest =>
      rw [htoken] at htoken'
      obtain ⟨rfl, rfl⟩ := Prod.mk.inj (Option.some.inj htoken')
      rw [hnest] at hnest'
      obtain rfl := Option.some.inj hnest'
      rw [ih hrest]

theorem Closes.exists_and_iff (h : Closes names s l) {q : List (Nat × Token) → Prop} :
    (∃ l', Closes names s l' ∧ q l') ↔ q l :=
  ⟨fun ⟨_, h', hq⟩ => h.unique h' ▸ hq, fun hq => ⟨l, h, hq⟩⟩

/-! ### Inside other elements -/

theorem Token.nest?_append (h : token.nest? names = some names') (base : List WrittenName) :
    token.nest? (names ++ base) = some (names' ++ base) := by
  cases token with
  | opening tag =>
    simp only [Token.nest?] at h ⊢
    split at h
    · next hnodup =>
      rw [if_pos hnodup]
      split at h
      · next hclosed =>
        obtain rfl := Option.some.inj h
        exact if_pos hclosed
      · next hopen =>
        obtain rfl := Option.some.inj h
        exact if_neg hopen
    · cases h
  | closing name =>
    cases names with
    | nil => cases h
    | cons innermost outer =>
      simp only [Token.nest?, List.cons_append] at h ⊢
      split at h
      · next hname =>
        obtain rfl := Option.some.inj h
        exact if_pos hname
      · cases h
  | literal | character | verbatim | note =>
    obtain rfl := Option.some.inj h
    rfl

/-- A token is read as it is, whatever markup follows behind the text. -/
theorem token?_append (hs : s ≠ []) (h : token? s = some (token, rest)) (t : Text) :
    token? (s ++ CodePoint.ofChar '<' :: t) = some (token, rest ++ CodePoint.ofChar '<' :: t) := by
  obtain ⟨u, rfl, hwritten, hliteral⟩ := written_of_token? hs h
  rw [List.append_assoc]
  refine token?_of_written hwritten fun htoken => ?_
  have hends := hliteral htoken
  cases rest with
  | nil => rfl
  | cons c rest => exact hends

/-- The tokens, deeper by a number of elements. -/
def deeper (n : Nat) (l : List (Nat × Token)) : List (Nat × Token) := l.map fun p => (p.1 + n, p.2)

/-- Markup in front of other markup: it is read inside the elements that the other closes. -/
theorem Closes.append (h : Closes names s l) (h' : Closes base (CodePoint.ofChar '<' :: t) l') :
    Closes (names ++ base) (s ++ CodePoint.ofChar '<' :: t) (deeper base.length l ++ l') := by
  induction h with
  | done => exact h'
  | @step names names' s rest token l hs htoken hnest _ ih =>
    have hstep := Closes.step (by simp) (token?_append hs htoken t) (Token.nest?_append hnest base) ih
    have hdepth : min (names ++ base).length (names' ++ base).length = min names.length names'.length + base.length := by
      rw [List.length_append, List.length_append]
      omega
    rw [hdepth] at hstep
    exact hstep

/-- A tag that is read to the end of a text is read whatever follows. -/
theorem token?_of_openingTag? {s : Text} (h : openingTag? s = some (tag, [])) (rest : Text) :
    token? (CodePoint.ofChar '<' :: (s ++ rest)) = some (.opening tag, rest) := by
  obtain ⟨u, rfl, hne, hclear, htakes⟩ := isLocal_openingTag? s tag [] h
  rw [List.append_nil]
  exact token?_of_written (.opening hne hclear htakes) fun hliteral => by cases hliteral

/-- Markup inside an element. -/
theorem Closes.enclose {opening closing : Text} (h : Closes [] s l) (hopening : openingTag? opening = some (tag, []))
    (hopen : tag.closed = false) (hnodup : (tag.attributes.map (·.1)).Nodup) (hclosing : closingTag? closing = some (tag.name, [])) :
    Closes [] (CodePoint.ofChar '<' :: (opening ++ (s ++ (("</" : Text) ++ closing))))
      ((0, .opening tag) :: (deeper 1 l ++ [(0, .closing tag.name)])) := by
  have hclose : Closes [tag.name] (("</" : Text) ++ closing) [(0, .closing tag.name)] := by
    obtain ⟨u, rfl, -, hclear, htakes⟩ := isLocal_closingTag? closing tag.name [] hclosing
    have htoken : token? (("</" : Text) ++ (u ++ [])) = some (.closing tag.name, []) := by
      rw [← List.append_assoc]
      exact token?_of_written (.closing hclear htakes) fun hliteral => by cases hliteral
    have hnest : Token.nest? [tag.name] (.closing tag.name) = some [] := if_pos rfl
    exact .step (List.append_ne_nil_of_left_ne_nil (by decide) _) htoken hnest .done
  have hinside := h.append hclose
  have hnest : Token.nest? [] (.opening tag) = some [tag.name] := by
    simp [Token.nest?, hnodup, hopen]
  exact .step (List.cons_ne_nil _ _) (token?_of_openingTag? hopening _) hnest hinside

/-! ### Elements -/

/-- The elements in some tokens: for each the number of those around it, and its name. -/
def elementsOf (l : List (Nat × Token)) : List (Nat × WrittenName) :=
  l.filterMap fun p => match p.2 with
    | .opening tag => some (p.1, tag.name)
    | _ => none

/-- The names of the elements at the top. -/
def topNames (l : List (Nat × Token)) : List WrittenName := ((elementsOf l).filter (·.1 = 0)).map (·.2)

theorem elementsOf_append (l l' : List (Nat × Token)) : elementsOf (l ++ l') = elementsOf l ++ elementsOf l' :=
  List.filterMap_append

theorem elementsOf_deeper (n : Nat) (l : List (Nat × Token)) :
    elementsOf (deeper n l) = (elementsOf l).map fun e => (e.1 + n, e.2) := by
  rw [elementsOf, elementsOf, deeper, List.filterMap_map, List.map_filterMap]
  refine List.filterMap_congr fun p _ => ?_
  obtain ⟨depth, token⟩ := p
  cases token <;> rfl

/-- The elements of markup that stands inside an element. -/
theorem elementsOf_enclose (tag : WrittenTag) (l : List (Nat × Token)) (name : WrittenName) :
    elementsOf ((0, .opening tag) :: (deeper 1 l ++ [(0, .closing name)])) =
      (0, tag.name) :: (elementsOf l).map fun e => (e.1 + 1, e.2) := by
  have hcons : ∀ rest, elementsOf ((0, .opening tag) :: rest) = (0, tag.name) :: elementsOf rest := fun _ => rfl
  rw [hcons, elementsOf_append, elementsOf_deeper]
  simp [elementsOf]

/-- The element around is the one at the top. -/
theorem topNames_enclose (tag : WrittenTag) (l : List (Nat × Token)) (name : WrittenName) :
    topNames ((0, .opening tag) :: (deeper 1 l ++ [(0, .closing name)])) = [tag.name] := by
  rw [topNames, elementsOf_enclose, List.filter_cons_of_pos (by simp), List.filter_map]
  simp [Function.comp_def]

end EquationExport.Xml
