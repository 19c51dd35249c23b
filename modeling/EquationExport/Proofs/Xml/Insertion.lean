import EquationExport.Proofs.Xml.Notes

/-!
# Notes put into content

A note is put into the content of a root element, and what is read stays the same but for notes. This does not hold at
every place: a note takes the text behind it along as its tail, so text must not follow. What may follow is a tag, another
note, or the end, and white space in front of that if it is left out as layout. What stands in front is read token by
token as before; only a stretch of text that the note ends is looked at again, since white space is kept where an element
holds nothing else, and left out where a note follows.
-/

namespace EquationExport.Xml

open Node

variable {r r' last : Reader} {f : Frame} {token : Token} {s s' u v t a b b' following : Text}

/-! ### What a reader of text sees of what follows -/

/-- Markup or nothing stands at the front. -/
def isAtMarkup (s : Text) : Bool := s.isEmpty || s.startsWith "<"

/-- The content of an element ends here. -/
def endsContent (s : Text) : Bool := s.isEmpty || s.startsWith "</"

theorem addText_congr (hmarkup : isAtMarkup s' = isAtMarkup s) (hends : endsContent s' = endsContent s) (f : Frame) (t : Text) :
    f.addText t s' = f.addText t s := by
  have hleaves : f.leavesOut s' = f.leavesOut s := by
    rw [Frame.leavesOut_eq, Frame.leavesOut_eq]
    unfold endsContent at hends
    rw [hends]
  unfold isAtMarkup at hmarkup
  unfold Frame.addText
  dsimp only
  rw [hmarkup, hleaves]

/-- Text takes up one point that opens no markup, at least, and other tokens two. -/
theorem Token.Written.exists_front (h : token.Written u) :
    (∃ c v, u = c :: v ∧ c ≠ '<') ∨ ∃ c d v, u = c :: d :: v := by
  cases h with
  | literal hne hclear _ =>
    obtain ⟨c, u, rfl⟩ := List.exists_cons_of_ne_nil hne
    exact .inl ⟨c, u, rfl, ne_bracket_of_isLiteralPoint (hclear c List.mem_cons_self)⟩
  | character => exact .inl ⟨_, _, rfl, by decide⟩
  | verbatim | comment | instruction | closing => exact .inr ⟨_, _, _, rfl⟩
  | opening hne _ _ =>
    obtain ⟨d, u, rfl⟩ := List.exists_cons_of_ne_nil hne
    exact .inr ⟨_, d, u, rfl⟩

/-- A token hides what is behind it. -/
theorem ahead_of_written (h : token.Written u) (s s' : Text) :
    isAtMarkup (u ++ s') = isAtMarkup (u ++ s) ∧ endsContent (u ++ s') = endsContent (u ++ s) := by
  rcases h.exists_front with ⟨c, v, rfl, hc⟩ | ⟨c, d, v, rfl⟩
  · have hnone : ∀ pre rest : Text, Text.startsWith (c :: rest) (('<' : CodePoint) :: pre) = false := by
      intro pre rest
      rw [Text.startsWith, not_startsWith_of_ne hc]
      rfl
    exact ⟨(hnone [] (v ++ s')).trans (hnone [] (v ++ s)).symm, (hnone _ (v ++ s')).trans (hnone _ (v ++ s)).symm⟩
  · have hmarkup : ∀ x y : Text, isAtMarkup (c :: d :: x) = isAtMarkup (c :: d :: y) := by
      intro x y
      show (if c = '<' then some (d :: x) else none).isSome = (if c = '<' then some (d :: y) else none).isSome
      split <;> rfl
    have hcontent : ∀ x y : Text, endsContent (c :: d :: x) = endsContent (c :: d :: y) := by
      intro x y
      show (Text.dropPrefix? (c :: d :: x) ['<', '/']).isSome = (Text.dropPrefix? (c :: d :: y) ['<', '/']).isSome
      simp only [Text.dropPrefix?]
      split
      · split <;> rfl
      · rfl
    exact ⟨hmarkup _ _, hcontent _ _⟩

/-! ### Another text behind what has been read -/

theorem take?_congr (h : ∀ t, token = .literal t → r.innermost.addText t s' = r.innermost.addText t s) :
    r.take? s' token = r.take? s token := by
  cases token with
  | literal t => rw [Reader.take?, Reader.take?, h t rfl]
  | character | verbatim | note | opening | closing => rfl

theorem endsLiteral_append (hu : u ≠ []) (s s' : Text) : endsLiteral (u ++ s') = endsLiteral (u ++ s) := by
  obtain ⟨c, u, rfl⟩ := List.exists_cons_of_ne_nil hu
  rfl

/--
What has been read is read in the same way with another text behind it, if the last stretch of text ends and is taken up
there as it was. The tokens before are hidden from the change by those after them.
-/
theorem Reader.Steps.exchange (h : Steps r s r' b) (hends : endsLiteral b = true → endsLiteral b' = true)
    (hadd : endsLiteral b = true → ∀ (f : Frame) (t : Text), f.addText t b = r'.innermost → f.addText t b' = r'.innermost) :
    ∃ u, s = u ++ b ∧ Steps r (u ++ b') r' b' ∧
      (u = [] ∧ r = r' ∨ ∃ token v w, Token.Written token v ∧ u = v ++ w) := by
  induction h with
  | refl r s => exact ⟨[], rfl, .refl r b', .inl ⟨rfl, rfl⟩⟩
  | @head r next last s behind b hstep hlength hrest ih =>
    have hs : s ≠ [] := by
      rintro rfl
      exact absurd hlength (Nat.not_lt_zero _)
    obtain ⟨token, htoken, htake⟩ := exists_of_step? hstep
    obtain ⟨v, rfl, hwritten, hliteral⟩ := written_of_token? hs htoken
    obtain ⟨w, rfl, hsteps, hfront⟩ := ih hends hadd
    suffices hsame : (token.isLiteral = true → endsLiteral (w ++ b') = true) ∧
        ∀ t, token = .literal t → r.innermost.addText t (w ++ b') = r.innermost.addText t (w ++ b) by
      refine ⟨v ++ w, (List.append_assoc v w b).symm, ?_, .inr ⟨token, v, w, hwritten, rfl⟩⟩
      rw [List.append_assoc]
      exact (steps_of_written hwritten hsame.1 ((take?_congr hsame.2).trans htake)).trans hsteps
    rcases hfront with ⟨rfl, rfl⟩ | ⟨token', v', w', hwritten', rfl⟩
    · refine ⟨fun hl => hends (hliteral hl), ?_⟩
      rintro t rfl
      obtain rfl := Option.some.inj htake
      exact hadd (hliteral rfl) _ t rfl
    · have hne : v' ++ w' ≠ [] := List.append_ne_nil_of_left_ne_nil hwritten'.ne_nil w'
      refine ⟨fun hl => (endsLiteral_append hne b b').trans (hliteral hl), fun t _ => ?_⟩
      rw [List.append_assoc, List.append_assoc]
      obtain ⟨hmarkup, hcontent⟩ := ahead_of_written hwritten' (w' ++ b) (w' ++ b')
      exact addText_congr hmarkup hcontent _ t

/-! ### Layout -/

theorem isLiteralPoint_of_isBlank {c : CodePoint} (h : c.isBlank = true) :
    isLiteralPoint c = true ∧ c.isXml = true ∧ c ≠ ']' := by
  simp only [CodePoint.isBlank, Bool.or_eq_true, beq_iff_eq] at h
  rcases h with ((rfl | rfl) | rfl) | rfl <;> decide

theorem endsLiteral_of_isAtMarkup (h : isAtMarkup s = true) : endsLiteral s = true := by
  cases s with
  | nil => rfl
  | cons c s =>
    have hc : c = '<' := by
      by_contra hc
      rw [isAtMarkup, Text.startsWith, show Text.dropPrefix? (c :: s) "<" = none from not_startsWith_of_ne hc] at h
      cases h
    rw [hc]
    rfl

/-- White space that is left out leaves the reader as it is. -/
theorem steps_of_blanks (hblank : s.all (·.isBlank) = true) (hmarkup : isAtMarkup following = true)
    (hleaves : s ≠ [] → r.innermost.leavesOut following = true) : Reader.Steps r (s ++ following) r following := by
  by_cases hne : s = []
  · subst hne
    exact .refl r following
  · have hpoints := fun c hc => isLiteralPoint_of_isBlank (List.all_eq_true.1 hblank c hc)
    have hlegal : (isLegal s && !Text.contains s "]]>") = true := by
      rw [Bool.and_eq_true, Bool.not_eq_true', ← Bool.not_eq_true]
      refine ⟨isLegal_iff.2 fun c hc => (hpoints c hc).2.1, fun hcontains => ?_⟩
      have hmem : (']' : CodePoint) ∈ ("]]>" : Text) := by decide
      exact (hpoints _ ((Text.contains_iff.1 hcontains).subset hmem)).2.2 rfl
    have hnormal : (normalizeLineEnds s).all (·.isBlank) = true :=
      List.all_eq_true.2 (forall_normalizeLineEnds (by decide) (List.all_eq_true.1 hblank))
    have htake : r.take? following (.literal (normalizeLineEnds s)) = some r := by
      have hsame : r.innermost.addText (normalizeLineEnds s) following = r.innermost := by
        unfold isAtMarkup at hmarkup
        rw [Frame.addText, hnormal, hmarkup, hleaves hne]
        rfl
      rw [Reader.take?, hsame]
    have hwritten : Token.Written (.literal (normalizeLineEnds s)) s := .literal hne (fun c hc => (hpoints c hc).1) hlegal
    exact Reader.steps_of_written hwritten (fun _ => endsLiteral_of_isAtMarkup hmarkup) htake

/-! ### Places where a note goes unseen -/

/-- Blank text is all that the element holds so far, and would be left out if a note stood behind it. -/
def Frame.holdsBlank (f : Frame) : Bool :=
  f.spacing != .preserve && match f.pieces with
    | [.text t] => t.all (·.isBlank)
    | _ => false

/--
A note goes unseen among some white space in an element. Behind the white space stands a tag, a note or the end. If there is
white space it is left out; if not, then the content does not end there with blank text alone.
-/
def Frame.isQuiet (f : Frame) (blanks behind : Text) : Bool :=
  blanks.all (·.isBlank) && startsMarkup behind &&
    if blanks.isEmpty then !(endsContent behind && f.holdsBlank) else f.leavesOut behind

/-- The text is a note as it is written. -/
def isNoteText (s : Text) : Bool := (token? s).any fun found => (found.1 matches .note _) && found.2.isEmpty

theorem isAtMarkup_of_startsMarkup (h : startsMarkup s = true) : isAtMarkup s = true := by
  rw [startsMarkup, Bool.or_eq_true, Bool.and_eq_true] at h
  rw [isAtMarkup, Bool.or_eq_true]
  exact h.imp_right And.left

/-- A note is a token, and what it starts with shows that. -/
theorem exists_of_isNoteText (h : isNoteText s = true) : ∃ n, Token.Written (.note n) s ∧ n.isNote = true ∧
    ∀ rest, startsMarkup (s ++ rest) = true ∧ endsContent (s ++ rest) = false := by
  obtain ⟨⟨token, rest⟩, htoken, hnote⟩ := (Option.any_eq_true _ _).1 h
  have hs : s ≠ [] := by
    rintro rfl
    cases htoken
    cases hnote
  obtain ⟨u, rfl, hwritten, -⟩ := written_of_token? hs htoken
  obtain ⟨htokenNote, hrest⟩ := Bool.and_eq_true_iff.1 hnote
  obtain rfl := List.isEmpty_iff.1 hrest
  rw [List.append_nil]
  cases hwritten with
  | literal | character | verbatim | opening | closing => cases htokenNote
  | comment htakes => exact ⟨_, .comment htakes, rfl, fun rest => ⟨rfl, rfl⟩⟩
  | instruction htakes => exact ⟨_, .instruction htakes, rfl, fun rest => ⟨rfl, rfl⟩⟩

/-- Text in front of a quiet place is taken up in the same way with a note there. -/
theorem addText_of_isQuiet {note : Text} (hmarkup : startsMarkup note = true) (hends : endsContent note = false)
    (hb : startsMarkup b = true) (hquiet : endsContent b = true → (f.addText t b).holdsBlank = false) :
    f.addText t note = f.addText t b := by
  cases hcontent : endsContent b with
  | false =>
    have hsame : isAtMarkup note = isAtMarkup b :=
      (isAtMarkup_of_startsMarkup hmarkup).trans (isAtMarkup_of_startsMarkup hb).symm
    exact addText_congr hsame (hends.trans hcontent.symm) f t
  | true =>
    have hnote : isAtMarkup note = true := isAtMarkup_of_startsMarkup hmarkup
    have hb' : isAtMarkup b = true := isAtMarkup_of_startsMarkup hb
    unfold isAtMarkup at hnote hb'
    cases hblank : t.all (·.isBlank) with
    | false => simp only [Frame.addText, hblank, Bool.false_and]
    | true =>
      suffices hleaves : f.leavesOut note = f.leavesOut b by
        unfold Frame.addText
        dsimp only
        rw [hleaves, hnote, hb']
      cases hpieces : f.pieces with
      | cons p pieces =>
        rw [Frame.leavesOut_eq, Frame.leavesOut_eq, hpieces]
        rfl
      | nil =>
        cases hspacing : f.spacing with
        | preserve | mixed =>
          rw [Frame.leavesOut_eq, Frame.leavesOut_eq, hspacing]
          rfl
        | layout | declaredLayout =>
          -- the blank text would be kept before the end, as all that the element holds
          have hleaves : f.leavesOut b = false := by
            unfold endsContent at hcontent
            rw [Frame.leavesOut_eq, hpieces, hcontent]
            simp
          have halone := hquiet hcontent
          rw [Frame.addText, hleaves, hpieces, hspacing] at halone
          simp [Frame.holdsBlank, hblank] at halone

/-- White space that is left out before some text is left out before a note, too. -/
theorem leavesOut_note {note : Text} (hends : endsContent note = false) (h : f.leavesOut following = true) :
    f.leavesOut note = true := by
  unfold endsContent at hends
  rw [Frame.leavesOut_eq] at h ⊢
  obtain ⟨hspacing, hplace⟩ := Bool.and_eq_true_iff.1 h
  rw [hspacing, Bool.true_and]
  split
  · next latest hlatest => rwa [hlatest] at hplace
  · rw [hends]
    rfl

/-- White space that is left out is left out behind a note, too. -/
theorem leavesOut_push_note (h : f.leavesOut following = true) (n : Node) : (f.push (.node n)).leavesOut following = true := by
  rw [Frame.leavesOut_eq] at h ⊢
  obtain ⟨hspacing, hplace⟩ := Bool.and_eq_true_iff.1 h
  refine Bool.and_eq_true_iff.2 ⟨hspacing, ?_⟩
  show (true && !startsWithText (.node n :: f.pieces)) = true
  rw [startsWithText_node, Bool.true_and]
  cases hpieces : f.pieces with
  | nil => rfl
  | cons p pieces =>
    rw [hpieces] at hplace
    exact (Bool.and_eq_true_iff.1 hplace).2

/-- Nothing blank stands at the end of a stretch of text, which would hold it. -/
theorem eq_nil_of_endsLiteral (hblank : s.all (·.isBlank) = true) (h : endsLiteral (s ++ t) = true) : s = [] := by
  cases s with
  | nil => rfl
  | cons c s =>
    have hc := (isLiteralPoint_of_isBlank (List.all_eq_true.1 hblank c List.mem_cons_self)).1
    rw [endsLiteral, List.cons_append, List.head?_cons, Option.all_some, hc] at h
    cases h

/--
A note in a quiet place: the content is read with it, and shows the same. `before` is what stands in front, `left` and
`right` are the white space around the note.
-/
theorem readContent?_note {root : Tag} {scope : Scope} {before left right note behind : Text} {text : Option Text}
    {children : List Node} (hnote : isNoteText note = true)
    (hread : readContent? root scope (before ++ (left ++ (right ++ behind))) = some (text, children))
    (hsteps : Reader.Steps (.start root scope) (before ++ (left ++ (right ++ behind))) r (left ++ (right ++ behind)))
    (hquiet : r.innermost.isQuiet (left ++ right) behind = true) :
    ∃ children', readContent? root scope (before ++ (left ++ (note ++ (right ++ behind)))) = some (text, children') ∧
      withoutNotes children' = withoutNotes children := by
  obtain ⟨last, hrun, hcontent⟩ := readContent?_eq_some_iff.1 hread
  obtain ⟨n, hwritten, hn, hfront⟩ := exists_of_isNoteText hnote
  obtain ⟨hplain, hplace⟩ := Bool.and_eq_true_iff.1 hquiet
  obtain ⟨hblank, hbehind⟩ := Bool.and_eq_true_iff.1 hplain
  obtain ⟨hleft, hright⟩ := Bool.and_eq_true_iff.1 (List.all_append.symm.trans hblank)
  have hleaves : left ++ right ≠ [] → r.innermost.leavesOut behind = true := by
    intro hne
    rwa [if_neg (by simpa using hne)] at hplace
  have halone : left ++ right = [] → endsContent behind = true → r.innermost.holdsBlank = false := by
    intro hnil hends
    rw [hnil] at hplace
    simpa [hends] using hplace
  have hmarkup := isAtMarkup_of_startsMarkup hbehind
  have hatNote : ∀ rest, isAtMarkup (note ++ rest) = true := fun rest => isAtMarkup_of_startsMarkup (hfront rest).1
  -- the reader without the note comes to what stands behind it as it was
  have hgo : Reader.Steps r behind ⟨last, []⟩ [] := by
    have hskip := steps_of_blanks hblank hmarkup hleaves
    rw [List.append_assoc] at hskip
    exact hskip.behind (hsteps.behind hrun)
  -- what stands in front is read as before
  have hbefore : Reader.Steps (.start root scope) (before ++ (left ++ (note ++ (right ++ behind)))) r
      (left ++ (note ++ (right ++ behind))) := by
    have hnone : endsLiteral (left ++ (right ++ behind)) = true → left = [] ∧ right = [] := by
      rw [← List.append_assoc]
      exact fun h => List.append_eq_nil_iff.1 (eq_nil_of_endsLiteral hblank h)
    have hends : endsLiteral (left ++ (right ++ behind)) = true → endsLiteral (left ++ (note ++ (right ++ behind))) = true := by
      intro h
      obtain ⟨rfl, rfl⟩ := hnone h
      exact endsLiteral_of_isAtMarkup (hatNote behind)
    have hadd : endsLiteral (left ++ (right ++ behind)) = true → ∀ (f : Frame) (t : Text),
        f.addText t (left ++ (right ++ behind)) = r.innermost →
          f.addText t (left ++ (note ++ (right ++ behind))) = r.innermost := by
      intro h f t hadd
      obtain ⟨rfl, rfl⟩ := hnone h
      refine (addText_of_isQuiet (hfront behind).1 (hfront behind).2 hbehind fun hends => ?_).trans hadd
      exact (congrArg Frame.holdsBlank hadd).trans (halone rfl hends)
    obtain ⟨u, hu, hexchanged, -⟩ := hsteps.exchange hends hadd
    rwa [← List.append_cancel_right hu] at hexchanged
  have hskipLeft : Reader.Steps r (left ++ (note ++ (right ++ behind))) r (note ++ (right ++ behind)) :=
    steps_of_blanks hleft (hatNote _) fun hne =>
      leavesOut_note (hfront _).2 (hleaves (List.append_ne_nil_of_left_ne_nil hne right))
  have htakeNote : Reader.Steps r (note ++ (right ++ behind)) (r.push (.node n)) (right ++ behind) :=
    Reader.steps_of_written hwritten (fun h => by cases h) rfl
  have hskipRight : Reader.Steps (r.push (.node n)) (right ++ behind) (r.push (.node n)) behind :=
    steps_of_blanks hright hmarkup fun hne =>
      leavesOut_push_note (hleaves (List.append_ne_nil_of_right_ne_nil left hne)) n
  obtain ⟨⟨last', outer'⟩, hlast', hinner, houter⟩ := (Reader.similar_push_note hn).steps hbehind hgo
  cases houter
  have hshown := hinner.plain [] rfl
  rw [List.append_nil, List.append_nil, shown, shown, hcontent] at hshown
  obtain ⟨htext, hchildren⟩ := Prod.mk.inj hshown
  refine ⟨(assemble last'.pieces.reverse).2, readContent?_eq_some_iff.2 ⟨last', ?_, Prod.ext htext rfl⟩, hchildren⟩
  exact hbefore.trans (hskipLeft.trans (htakeNote.trans (hskipRight.trans hlast')))

end EquationExport.Xml
