import EquationExport.Proofs.Xml.RoundTrip
import EquationExport.Proofs.Xml.Recogniser

/-!
# Token by token

What a reader does at a place is told in two parts: which token stands there, and how the reader takes the token up. A
token can be cut out of a text and put in front of another, where it is read as the same token; a stretch of literal
text alone asks for markup or a reference behind it. A run of a reader is a sequence of such steps, and there is one
only.
-/

namespace EquationExport.Xml

/-- A part of written markup that a reader takes up at once. -/
inductive Token where
  /-- A stretch of text up to the next markup or reference. -/
  | literal (t : Text)
  /-- A character that is written as a reference. -/
  | character (c : CodePoint)
  /-- A section of literal text. -/
  | verbatim (t : Text)
  /-- A comment or a processing instruction. -/
  | note (n : Node)
  | opening (tag : WrittenTag)
  | closing (name : WrittenName)

variable {s t rest : Text} {token : Token} {r r' : Reader}

/-! ### The token at the front -/

/-- The token behind an opening bracket. -/
def markupToken? (s : Text) : Option (Token × Text) :=
  match s.dropOneOf? ["!--", "![CDATA[", "!", "?", "/"] with
  | none => (openingTag? s).map fun (tag, rest) => (.opening tag, rest)
  | some (mark, s) =>
    if mark = "!--" then (comment? s).map fun (content, rest) => (.note (.comment content []), rest)
    else if mark = "![CDATA[" then (until? "]]>" s).map fun (content, rest) => (.verbatim content, rest)
    else if mark = "?" then
      (instruction? s).map fun ((target, content), rest) => (.note (.instruction target content []), rest)
    else if mark = "/" then (closingTag? s).map fun (name, rest) => (.closing name, rest)
    else none

/-- The code point stands for itself in text. -/
def isLiteralPoint (c : CodePoint) : Bool := c != '<' && c != '&'

theorem ne_bracket_of_isLiteralPoint {c : CodePoint} (h : isLiteralPoint c = true) : c ≠ '<' := by
  rintro rfl
  exact absurd h (by decide)

/-- The token at the front of a text. -/
def token? (s : Text) : Option (Token × Text) :=
  match s.dropPrefix? "<", s.dropPrefix? "&" with
  | some rest, _ => markupToken? rest
  | none, some rest => (reference? rest).map fun (c, rest) => (.character c, rest)
  | none, none =>
    let (t, rest) := s.span isLiteralPoint
    if isLegal t && !t.contains "]]>" then some (.literal (normalizeLineEnds t), rest) else none

/-- Takes up a token; `following` is what comes behind it. -/
def Reader.take? (r : Reader) (following : Text) : Token → Option Reader
  | .literal t => some { r with innermost := r.innermost.addText t following }
  | .character c => some (r.push (.text [c]))
  | .verbatim t => some (r.push (.text t))
  | .note n => some (r.push (.node n))
  | .opening tag => r.openElement? tag
  | .closing name => r.closeElement? name

/-- A step reads a token and takes it up. -/
theorem Reader.step?_eq (r : Reader) (s : Text) :
    r.step? s = (token? s).bind fun found => (r.take? found.2 found.1).map (·, found.2) := by
  unfold Reader.step? token?
  cases s.dropPrefix? "<" with
  | some rest =>
    show r.readMarkup? rest = (markupToken? rest).bind _
    unfold Reader.readMarkup? markupToken?
    cases rest.dropOneOf? ["!--", "![CDATA[", "!", "?", "/"] with
    | none =>
      cases openingTag? rest with
      | none => rfl
      | some found => exact Option.map_eq_bind.symm
    | some found =>
      obtain ⟨mark, behind⟩ := found
      dsimp only
      split
      · cases comment? behind <;> rfl
      · split
        · cases until? "]]>" behind <;> rfl
        · split
          · cases instruction? behind <;> rfl
          · split
            · cases closingTag? behind with
              | none => rfl
              | some found => exact Option.map_eq_bind.symm
            · rfl
  | none =>
    cases s.dropPrefix? "&" with
    | some rest =>
      dsimp only
      cases reference? rest <;> rfl
    | none =>
      have hspan : (s.span fun c => c != '<' && c != '&') = s.span isLiteralPoint := rfl
      simp only [hspan]
      split <;> rfl

/-! ### What is taken up for a token -/

/-- Behind a stretch of text stands markup, a reference or nothing. -/
def endsLiteral (s : Text) : Bool := s.head?.all fun (c : CodePoint) => !isLiteralPoint c

/-- The token is a stretch of text. -/
def Token.isLiteral : Token → Bool
  | .literal _ => true
  | _ => false

/-- What is taken up of a text for a token. -/
inductive Token.Written : Token → Text → Prop where
  | literal {t : Text} : t ≠ [] → (∀ c ∈ t, isLiteralPoint c = true) → (isLegal t && !Text.contains t "]]>") = true →
    Written (.literal (normalizeLineEnds t)) t
  | character {u : Text} {c : CodePoint} : (∀ c ∈ u, c ≠ '<') → Takes reference? u c →
    Written (.character c) (('&' : CodePoint) :: u)
  | verbatim {u t : Text} : Takes (until? "]]>") u t → Written (.verbatim t) (("<![CDATA[" : Text) ++ u)
  | comment {u content : Text} : Takes comment? u content → Written (.note (.comment content [])) (("<!--" : Text) ++ u)
  | instruction {u target : Text} {content : Option Text} : Takes instruction? u (target, content) →
    Written (.note (.instruction target content [])) (("<?" : Text) ++ u)
  | opening {u : Text} {tag : WrittenTag} : u ≠ [] → (∀ c ∈ u, c ≠ '<') → Takes openingTag? u tag →
    Written (.opening tag) (('<' : CodePoint) :: u)
  | closing {u : Text} {name : WrittenName} : (∀ c ∈ u, c ≠ '<') → Takes closingTag? u name →
    Written (.closing name) (("</" : Text) ++ u)

theorem endsLiteral_dropWhile (s : Text) : endsLiteral (s.dropWhile isLiteralPoint) = true := by
  have hnot := List.head?_dropWhile_not isLiteralPoint s
  rw [endsLiteral]
  cases hhead : (s.dropWhile isLiteralPoint).head? with
  | none => rfl
  | some c =>
    rw [hhead] at hnot
    simpa using hnot

theorem eq_append_of_dropOneOf? {mark : Text} {marks : List Text} (h : s.dropOneOf? marks = some (mark, rest)) :
    s = mark ++ rest := by
  induction marks with
  | nil => cases h
  | cons m marks ih =>
    rw [Text.dropOneOf?] at h
    split at h
    · next behind hdrop =>
      obtain ⟨rfl, rfl⟩ := Prod.mk.inj (Option.some.inj h)
      exact Text.eq_append_of_dropPrefix? hdrop
    · exact ih h

theorem written_of_markupToken? (h : markupToken? s = some (token, rest)) :
    ∃ u, ('<' : CodePoint) :: s = u ++ rest ∧ token.Written u ∧ token.isLiteral = false := by
  unfold markupToken? at h
  split at h
  · obtain ⟨⟨tag, behind⟩, htag, heq⟩ := Option.map_eq_some_iff.1 h
    obtain ⟨rfl, rfl⟩ := Prod.mk.inj heq
    obtain ⟨u, rfl, hne, hclear, htakes⟩ := isLocal_openingTag? s tag behind htag
    exact ⟨_, rfl, .opening hne hclear htakes, rfl⟩
  · next mark behind hmark =>
    obtain rfl := eq_append_of_dropOneOf? hmark
    split at h
    · next heq =>
      subst heq
      obtain ⟨⟨content, behind'⟩, hcontent, heq⟩ := Option.map_eq_some_iff.1 h
      obtain ⟨rfl, rfl⟩ := Prod.mk.inj heq
      obtain ⟨u, rfl, -, -, htakes⟩ := isLocal_comment? _ _ _ hcontent
      exact ⟨_, rfl, .comment htakes, rfl⟩
    · split at h
      · next heq =>
        subst heq
        obtain ⟨⟨content, behind'⟩, hcontent, heq⟩ := Option.map_eq_some_iff.1 h
        obtain ⟨rfl, rfl⟩ := Prod.mk.inj heq
        obtain ⟨u, rfl, -, -, htakes⟩ := isLocal_until? (by decide) _ _ _ hcontent
        exact ⟨_, rfl, .verbatim htakes, rfl⟩
      · split at h
        · next heq =>
          subst heq
          obtain ⟨⟨⟨target, content⟩, behind'⟩, hcontent, heq⟩ := Option.map_eq_some_iff.1 h
          obtain ⟨rfl, rfl⟩ := Prod.mk.inj heq
          obtain ⟨u, rfl, -, -, htakes⟩ := isLocal_instruction? _ _ _ hcontent
          exact ⟨_, rfl, .instruction htakes, rfl⟩
        · split at h
          · next heq =>
            subst heq
            obtain ⟨⟨name, behind'⟩, hname, heq⟩ := Option.map_eq_some_iff.1 h
            obtain ⟨rfl, rfl⟩ := Prod.mk.inj heq
            obtain ⟨u, rfl, -, hclear, htakes⟩ := isLocal_closingTag? _ _ _ hname
            exact ⟨_, rfl, .closing hclear htakes, rfl⟩
          · cases h

theorem written_of_token? (hs : s ≠ []) (h : token? s = some (token, rest)) :
    ∃ u, s = u ++ rest ∧ token.Written u ∧ (token.isLiteral = true → endsLiteral rest = true) := by
  unfold token? at h
  split at h
  · next behind _ hopen =>
    obtain ⟨u, hu, hwritten, hnot⟩ := written_of_markupToken? h
    refine ⟨u, (Text.eq_append_of_dropPrefix? hopen).trans hu, hwritten, fun hliteral => ?_⟩
    rw [hnot] at hliteral
    cases hliteral
  · next behind _ hreference =>
    obtain ⟨⟨c, behind'⟩, hc, heq⟩ := Option.map_eq_some_iff.1 h
    obtain ⟨rfl, rfl⟩ := Prod.mk.inj heq
    obtain ⟨u, rfl, -, hclear, htakes⟩ := isLocal_reference? _ _ _ hc
    refine ⟨('&' : CodePoint) :: u, ?_, .character hclear htakes, fun hliteral => by cases hliteral⟩
    rw [Text.eq_append_of_dropPrefix? hreference]
    rfl
  · next hopen hreference =>
    dsimp only at h
    split at h
    · next hlegal =>
      obtain ⟨rfl, rfl⟩ := Prod.mk.inj (Option.some.inj h)
      refine ⟨_, List.takeWhile_append_dropWhile.symm, .literal ?_ (List.all_eq_true.1 List.all_takeWhile) hlegal,
        fun _ => endsLiteral_dropWhile s⟩
      cases s with
      | nil => exact absurd rfl hs
      | cons c s =>
        have hc : isLiteralPoint c = true := by
          have hlt : c ≠ '<' := by
            rintro rfl
            rw [show Text.dropPrefix? (('<' : CodePoint) :: s) "<" = some s from Text.dropPrefix?_append "<" s] at hopen
            cases hopen
          have hamp : c ≠ '&' := by
            rintro rfl
            rw [show Text.dropPrefix? (('&' : CodePoint) :: s) "&" = some s from Text.dropPrefix?_append "&" s] at hreference
            cases hreference
          simp [isLiteralPoint, hlt, hamp]
        rw [Text.span, List.takeWhile_cons_of_pos hc]
        exact List.cons_ne_nil _ _
    · cases h

theorem token?_lt (s : Text) : token? (('<' : CodePoint) :: s) = markupToken? s := by
  have hopen : Text.dropPrefix? (('<' : CodePoint) :: s) "<" = some s := Text.dropPrefix?_append "<" s
  rw [token?, hopen]

theorem token?_of_written {u : Text} (h : token.Written u) (hrest : token.isLiteral = true → endsLiteral rest = true) :
    token? (u ++ rest) = some (token, rest) := by
  cases h with
  | literal hne hclear hlegal =>
    have hstop : rest.takeWhile isLiteralPoint = [] ∧ rest.dropWhile isLiteralPoint = rest := by
      cases rest with
      | nil => exact ⟨rfl, rfl⟩
      | cons c rest =>
        have hc : isLiteralPoint c = false := by simpa [endsLiteral] using hrest rfl
        exact ⟨List.takeWhile_cons_of_neg (by simp [hc]), List.dropWhile_cons_of_neg (by simp [hc])⟩
    have hspan : Text.span (u ++ rest) isLiteralPoint = (u, rest) := by
      rw [Text.span, List.takeWhile_append_of_pos hclear, List.dropWhile_append_of_pos hclear, hstop.1, hstop.2,
        List.append_nil]
    obtain ⟨c, u, rfl⟩ := List.exists_cons_of_ne_nil hne
    have hc : c ≠ '<' ∧ c ≠ '&' := by simpa [isLiteralPoint] using hclear c List.mem_cons_self
    have hopen : Text.dropPrefix? (c :: u ++ rest) "<" = none := if_neg hc.1
    have hreference : Text.dropPrefix? (c :: u ++ rest) "&" = none := if_neg hc.2
    rw [token?, hopen, hreference]
    simp only [hspan, hlegal, if_true]
  | @character u c hclear htakes =>
    have hreference : Text.dropPrefix? (('&' : CodePoint) :: (u ++ rest)) "&" = some (u ++ rest) :=
      Text.dropPrefix?_append "&" _
    have hopen : Text.dropPrefix? (('&' : CodePoint) :: (u ++ rest)) "<" = none := if_neg (by decide)
    rw [List.cons_append, token?, hopen, hreference]
    exact congrArg (Option.map fun found => (Token.character found.1, found.2)) (htakes rest)
  | @verbatim u t htakes =>
    have hmark : Text.dropOneOf? (("![CDATA[" : Text) ++ (u ++ rest)) ["!--", "![CDATA[", "!", "?", "/"] =
        some (("![CDATA[" : Text), u ++ rest) := by simp [Text.dropOneOf?, Text.dropPrefix?, Text.ofString, CodePoint.ofChar]
    show token? (('<' : CodePoint) :: (("![CDATA[" : Text) ++ u ++ rest)) = _
    rw [token?_lt, List.append_assoc, markupToken?, hmark]
    exact congrArg (Option.map fun found => (Token.verbatim found.1, found.2)) (htakes rest)
  | @comment u content htakes =>
    have hmark : Text.dropOneOf? (("!--" : Text) ++ (u ++ rest)) ["!--", "![CDATA[", "!", "?", "/"] =
        some (("!--" : Text), u ++ rest) := by simp [Text.dropOneOf?, Text.dropPrefix?, Text.ofString, CodePoint.ofChar]
    show token? (('<' : CodePoint) :: (("!--" : Text) ++ u ++ rest)) = _
    rw [token?_lt, List.append_assoc, markupToken?, hmark]
    exact congrArg (Option.map fun found => (Token.note (.comment found.1 []), found.2)) (htakes rest)
  | @instruction u target content htakes =>
    have hmark : Text.dropOneOf? (("?" : Text) ++ (u ++ rest)) ["!--", "![CDATA[", "!", "?", "/"] =
        some (("?" : Text), u ++ rest) := by simp [Text.dropOneOf?, Text.dropPrefix?, Text.ofString, CodePoint.ofChar]
    show token? (('<' : CodePoint) :: (("?" : Text) ++ u ++ rest)) = _
    rw [token?_lt, List.append_assoc, markupToken?, hmark]
    exact congrArg (Option.map fun found => (Token.note (.instruction found.1.1 found.1.2 []), found.2)) (htakes rest)
  | @opening u tag hne hclear htakes =>
    obtain ⟨⟨name, behind⟩, hname, -⟩ := Option.bind_eq_some_iff.1 (htakes rest)
    obtain ⟨c, more, hcons, hstart⟩ := exists_cons_of_qualifiedName? hname
    have hmark : Text.dropOneOf? (u ++ rest) ["!--", "![CDATA[", "!", "?", "/"] = none := by
      have hne : c ≠ '!' ∧ c ≠ '?' ∧ c ≠ '/' := by
        refine ⟨?_, ?_, ?_⟩ <;> rintro rfl <;> exact absurd hstart (by decide)
      have hslash : Text.dropPrefix? (c :: more) "/" = none := if_neg hne.2.2
      rw [hcons, dropOneOf?_marks ⟨hne.1, hne.2.1⟩]
      simp only [Text.dropOneOf?, hslash]
    show token? (('<' : CodePoint) :: (u ++ rest)) = _
    rw [token?_lt, markupToken?, hmark]
    exact congrArg (Option.map fun found => (Token.opening found.1, found.2)) (htakes rest)
  | @closing u name hclear htakes =>
    have hmark : Text.dropOneOf? (("/" : Text) ++ (u ++ rest)) ["!--", "![CDATA[", "!", "?", "/"] =
        some (("/" : Text), u ++ rest) := by simp [Text.dropOneOf?, Text.dropPrefix?, Text.ofString, CodePoint.ofChar]
    show token? (('<' : CodePoint) :: (("/" : Text) ++ u ++ rest)) = _
    rw [token?_lt, List.append_assoc, markupToken?, hmark]
    exact congrArg (Option.map fun found => (Token.closing found.1, found.2)) (htakes rest)

theorem Token.Written.ne_nil {u : Text} (h : token.Written u) : u ≠ [] := by
  cases h with
  | literal hne => exact hne
  | character | opening => exact List.cons_ne_nil _ _
  | verbatim | comment | instruction | closing => exact List.append_ne_nil_of_left_ne_nil (by decide) _

/-! ### Runs -/

namespace Reader

theorem exists_of_step? (h : r.step? s = some (r', rest)) :
    ∃ token, token? s = some (token, rest) ∧ r.take? rest token = some r' := by
  rw [step?_eq] at h
  obtain ⟨⟨token, behind⟩, htoken, htake⟩ := Option.bind_eq_some_iff.1 h
  obtain ⟨next, hnext, heq⟩ := Option.map_eq_some_iff.1 htake
  obtain ⟨rfl, rfl⟩ := Prod.mk.inj heq
  exact ⟨token, htoken, hnext⟩

/-- A token at the front of a text is read and taken up. -/
theorem steps_of_written {u : Text} (hwritten : token.Written u) (hrest : token.isLiteral = true → endsLiteral rest = true)
    (htake : r.take? rest token = some r') : Steps r (u ++ rest) r' rest := by
  refine Steps.one ?_ ?_
  · rw [step?_eq, token?_of_written hwritten hrest, Option.bind_some, htake]
    rfl
  · have := List.length_pos_of_ne_nil hwritten.ne_nil
    rw [List.length_append]
    omega

/-- A run that comes to the end is a sequence of steps. -/
theorem steps_of_run? {fuel : Nat} (h : run? fuel r s = some r') : Steps r s r' [] := by
  induction fuel generalizing r s with
  | zero =>
    cases s with
    | nil =>
      obtain rfl := Option.some.inj h
      exact .refl r []
    | cons c s => cases h
  | succ fuel ih =>
    cases s with
    | nil =>
      obtain rfl := Option.some.inj h
      exact .refl r []
    | cons c s =>
      rw [run?] at h
      split at h
      · next next rest hstep =>
        obtain ⟨token, htoken, -⟩ := exists_of_step? hstep
        obtain ⟨u, hu, hwritten, -⟩ := written_of_token? (List.cons_ne_nil c s) htoken
        refine .head hstep ?_ (ih h)
        have := List.length_pos_of_ne_nil hwritten.ne_nil
        rw [hu, List.length_append]
        omega
      · cases h

/-- There is one run only: from a place that it comes to it goes on to its end. -/
theorem Steps.behind {s' : Text} {last : Reader} (h : Steps r s r' s') (hend : Steps r s last []) : Steps r' s' last [] := by
  induction h with
  | refl => exact hend
  | head hstep hlength _ ih =>
    cases hend with
    | refl => exact absurd hlength (Nat.not_lt_zero _)
    | head hstep' _ hrest =>
      rw [hstep] at hstep'
      obtain ⟨rfl, rfl⟩ := Prod.mk.inj (Option.some.inj hstep')
      exact ih hrest

/-- A reader before the content of a root element. -/
def start (root : Tag) (scope : Scope) : Reader := ⟨⟨(none, root.name.localPart), root, scope, .layout, []⟩, []⟩

end Reader

/-- Content is read by steps to its end, where no element is left open. -/
theorem readContent?_eq_some_iff {root : Tag} {scope : Scope} {text : Option Text} {children : List Node} :
    readContent? root scope s = some (text, children) ↔
      ∃ f, Reader.Steps (.start root scope) s ⟨f, []⟩ [] ∧ assemble f.pieces.reverse = (text, children) := by
  unfold readContent?
  dsimp only
  constructor
  · intro h
    split at h
    · next f hrun => exact ⟨f, Reader.steps_of_run? hrun, Option.some.inj h⟩
    · cases h
  · rintro ⟨f, hsteps, hcontent⟩
    have hrun := hsteps.run? (Nat.le_refl _)
    rw [Reader.start] at hrun
    rw [hrun, ← hcontent]

end EquationExport.Xml
