import EquationExport.Proofs.Xml.WellFormed

/-!
# What a recogniser takes up

A recogniser takes up a part of the text at its front, and what it finds there does not depend on what follows; where
it goes as far as it can, as for a name, it depends on the first code point that follows. Recognisers that are run one
after the other take up what they take up one after the other, so that all tokens of markup have this property. What
is taken up for a reference or a tag holds no opening angle bracket.
-/

namespace EquationExport.Xml

variable {α β : Type} {A : CodePoint → Prop} {p : Text → Option (α × Text)} {q : α → Text → Option (β × Text)}
  {s rest : Text}

/-! ### Recognisers -/

/-- The recogniser takes up `u`, whatever follows, and finds `a` in it. -/
def Takes (p : Text → Option (α × Text)) (u : Text) (a : α) : Prop := ∀ rest, p (u ++ rest) = some (a, rest)

/-- The recogniser takes up `u` and finds `a` in it, if what follows starts as `s` does. -/
def TakesBefore (p : Text → Option (α × Text)) (u : Text) (a : α) (s : Text) : Prop :=
  ∀ rest, rest.head? = s.head? → p (u ++ rest) = some (a, rest)

/-- All that the recogniser takes up, it takes up whatever follows. It is something, and its code points are in `A`. -/
def IsLocal (A : CodePoint → Prop) (p : Text → Option (α × Text)) : Prop :=
  ∀ s a rest, p s = some (a, rest) → ∃ u, s = u ++ rest ∧ u ≠ [] ∧ (∀ c ∈ u, A c) ∧ Takes p u a

/-- The recogniser goes as far as it can, so that it looks at one code point more than it takes up. -/
def IsGreedy (A : CodePoint → Prop) (p : Text → Option (α × Text)) : Prop :=
  ∀ s a rest, p s = some (a, rest) → ∃ u, s = u ++ rest ∧ (∀ c ∈ u, A c) ∧ TakesBefore p u a rest

theorem IsLocal.isGreedy (h : IsLocal A p) : IsGreedy A p := by
  intro s a rest hs
  obtain ⟨u, rfl, -, hA, htakes⟩ := h s a rest hs
  exact ⟨u, rfl, hA, fun rest _ => htakes rest⟩

theorem head?_append_of_ne_nil {u : Text} (hu : u ≠ []) (s t : Text) : (u ++ s).head? = (u ++ t).head? := by
  cases u with
  | nil => exact absurd rfl hu
  | cons c u => rfl

/-- What is taken up by one recogniser and by another behind it. -/
theorem IsGreedy.bind (hp : IsGreedy A p) (hq : ∀ a, IsLocal A (q a)) :
    IsLocal A fun s => (p s).bind fun found => q found.1 found.2 := by
  intro s b rest hs
  obtain ⟨⟨a, behind⟩, hfirst, hsecond⟩ := Option.bind_eq_some_iff.1 hs
  obtain ⟨u, rfl, hAu, hu⟩ := hp s a behind hfirst
  obtain ⟨v, rfl, hne, hAv, hv⟩ := hq a behind b rest hsecond
  refine ⟨u ++ v, (List.append_assoc _ _ _).symm, List.append_ne_nil_of_right_ne_nil u hne, ?_, fun more => ?_⟩
  · intro c hc
    exact (List.mem_append.1 hc).elim (hAu c) (hAv c)
  · have htaken := hu (v ++ more) (head?_append_of_ne_nil hne more rest)
    show ((p (u ++ v ++ more)).bind fun found => q found.1 found.2) = _
    rw [List.append_assoc, htaken]
    exact hv more

theorem IsLocal.map (hp : IsLocal A p) (f : α → β) : IsLocal A fun s => (p s).map fun found => (f found.1, found.2) := by
  intro s b rest hs
  obtain ⟨⟨a, behind⟩, hfound, heq⟩ := Option.map_eq_some_iff.1 hs
  obtain ⟨rfl, rfl⟩ := Prod.mk.inj heq
  obtain ⟨u, rfl, hne, hA, htakes⟩ := hp s a behind hfound
  exact ⟨u, rfl, hne, hA, fun more => congrArg (Option.map fun found => (f found.1, found.2)) (htakes more)⟩

/-- Blanks are left out up to the first code point that is none. -/
theorem dropWhile_blanks {w t : Text} (hw : ∀ c ∈ w, c.isBlank = true) (ht : ∀ c ∈ t.head?, c.isBlank = false) :
    List.dropWhile (·.isBlank) (w ++ t) = t := by
  rw [List.dropWhile_append_of_pos hw]
  cases t with
  | nil => rfl
  | cons c t => exact List.dropWhile_cons_of_neg (by simp [ht c rfl])

/-- A text is blanks and then something that does not start with one. -/
theorem exists_blanks (s : Text) : ∃ w t, s = w ++ t ∧ s.dropWhile (·.isBlank) = t ∧ (∀ c ∈ w, c.isBlank = true) ∧
    ∀ c ∈ t.head?, c.isBlank = false := by
  refine ⟨s.takeWhile (·.isBlank), _, List.takeWhile_append_dropWhile.symm, rfl, List.all_eq_true.1 List.all_takeWhile,
    fun c hc => ?_⟩
  have hnot := List.head?_dropWhile_not (fun d : CodePoint => d.isBlank) s
  rw [Option.mem_def.1 hc] at hnot
  simpa using hnot

/-- Blanks in front are taken up too. -/
theorem IsLocal.afterBlanks (hA : ∀ c : CodePoint, c.isBlank = true → A c) (hp : IsLocal A p) :
    IsLocal A fun s => p (s.dropWhile (·.isBlank)) := by
  intro s a rest hs
  obtain ⟨w, t, rfl, ht, hw, hfirst⟩ := exists_blanks s
  obtain ⟨u, rfl, hne, hAu, htakes⟩ := hp t a rest (ht ▸ hs)
  refine ⟨w ++ u, (List.append_assoc _ _ _).symm, List.append_ne_nil_of_right_ne_nil _ hne, ?_, fun more => ?_⟩
  · intro c hc
    exact (List.mem_append.1 hc).elim (fun hc => hA c (hw c hc)) (hAu c)
  · rw [head?_append_of_ne_nil hne rest more] at hfirst
    show p (List.dropWhile _ _) = _
    rw [List.append_assoc, dropWhile_blanks hw hfirst]
    exact htakes more

/-- A given text is recognised. -/
theorem isLocal_dropPrefix? {mark : Text} (hne : mark ≠ []) (hA : ∀ c ∈ mark, A c) (a : α) :
    IsLocal A fun s : Text => (s.dropPrefix? mark).map (a, ·) := by
  intro s b rest hs
  obtain ⟨behind, hbehind, heq⟩ := Option.map_eq_some_iff.1 hs
  obtain ⟨rfl, rfl⟩ := Prod.mk.inj heq
  exact ⟨mark, Text.eq_append_of_dropPrefix? hbehind, hne, hA,
    fun more => congrArg (Option.map (a, ·)) (Text.dropPrefix?_append mark more)⟩

/-- The first occurrence of a text does not depend on what follows it. -/
theorem breakOn?_append_left {a mark behind : Text} (h : s.breakOn? mark = some (a, behind)) :
    s = a ++ mark ++ behind ∧ ∀ more, (a ++ mark ++ more).breakOn? mark = some (a, more) := by
  obtain ⟨rfl, hstands, hfirst⟩ := Text.breakOn?_eq_some_iff.1 h
  have hfront : (a ++ mark).breakOn? mark = some (a, []) := by
    refine Text.breakOn?_eq_some_iff.2 ⟨by simp, ?_, fun j hj hs => hfirst j hj ?_⟩
    · exact (Text.standsAt_append_left (by simp)).1 hstands
    · refine (Text.standsAt_append_left ?_).2 hs
      rw [List.length_append]
      omega
  exact ⟨rfl, fun more => Text.breakOn?_append hfront more⟩

/-! ### Names -/

/-- A name as it is written. -/
def writeName (name : WrittenName) : Text := Name.written ⟨name.1, none, name.2⟩

theorem endsName_congr {s t : Text} (h : s.head? = t.head?) : endsName s = endsName t := by
  rw [endsName, endsName, h]

theorem head?_of_plainName? {name : Text} (h : plainName? s = some (name, rest)) : ∀ c ∈ rest.head?, c.isNamePart = false := by
  unfold plainName? at h
  split at h
  · next d s =>
    split at h
    · obtain ⟨-, rfl⟩ := Prod.mk.inj (Option.some.inj h)
      intro c hc
      have hnot := List.head?_dropWhile_not (fun d : CodePoint => d.isNamePart) (d :: s)
      rw [Option.mem_def.1 hc] at hnot
      simpa using hnot
    · cases h
  · cases h

theorem endsName_of_plainName? {name : Text} (h : plainName? s = some (name, rest)) (hcolon : rest.startsWith ":" = false) :
    endsName rest = true := by
  have hpart := head?_of_plainName? h
  cases rest with
  | nil => rfl
  | cons c rest =>
    have hne : c ≠ ':' := by
      rintro rfl
      have hsome : Text.dropPrefix? ((':' : CodePoint) :: rest) ":" = some rest := Text.dropPrefix?_append ":" rest
      rw [Text.startsWith, hsome]
        at hcolon
      cases hcolon
    simp [endsName, hpart c rfl, hne]

/-- A name is taken up as it is written, and what follows does not go on with it. -/
theorem qualifiedName?_eq_some {name : WrittenName} (h : qualifiedName? s = some (name, rest)) :
    isQualifiedName name = true ∧ s = writeName name ++ rest ∧ endsName rest = true := by
  refine ⟨isQualifiedName_of_qualifiedName? h, ?_⟩
  unfold qualifiedName? at h
  split at h
  · cases h
  · next first behind hfirst =>
    obtain ⟨-, rfl⟩ := plainName?_eq_some hfirst
    split at h
    · next hcolon =>
      obtain ⟨rfl, rfl⟩ := Prod.mk.inj (Option.some.inj h)
      exact ⟨rfl, endsName_of_plainName? hfirst (by rw [Text.startsWith, hcolon]; rfl)⟩
    · next behind' hcolon =>
      split at h
      · cases h
      · next second rest' hsecond =>
        split at h
        · cases h
        · next hnot =>
          obtain ⟨rfl, rfl⟩ := Prod.mk.inj (Option.some.inj h)
          obtain ⟨-, rfl⟩ := plainName?_eq_some hsecond
          refine ⟨?_, endsName_of_plainName? hsecond (by simpa using hnot)⟩
          rw [Text.eq_append_of_dropPrefix? hcolon]
          simp [writeName, Name.written]

theorem isNamePart_of_mem_writeName {name : WrittenName} (h : isQualifiedName name = true) {c : CodePoint}
    (hc : c ∈ writeName name) : c.isNamePart = true ∨ c = ':' := by
  obtain ⟨qualifier, localPart⟩ := name
  obtain ⟨hqualifier, hlocal⟩ := Bool.and_eq_true_iff.1 h
  have hparts : ∀ {t : Text}, isName t = true → ∀ d ∈ t, d.isNamePart = true := by
    intro t ht
    obtain ⟨-, -, -, -, hall⟩ := exists_cons_of_isName ht
    exact hall
  cases qualifier with
  | none => exact .inl (hparts hlocal c hc)
  | some qualifier =>
    rcases List.mem_append.1 hc with hc | hc
    · rcases List.mem_append.1 hc with hc | hc
      · exact .inl (hparts (by simpa using hqualifier) c hc)
      · exact .inr (by simpa [Text.ofString] using hc)
    · exact .inl (hparts hlocal c hc)

/-- A name is read as it is written. -/
theorem qualifiedName?_writeName {name : WrittenName} (hname : isQualifiedName name = true) (hends : endsName s = true) :
    qualifiedName? (writeName name ++ s) = some (name, s) :=
  have hqualified : isQualifiedName (Name.parts ⟨name.1, none, name.2⟩) = true := hname
  qualifiedName?_written hqualified hends

theorem isGreedy_qualifiedName? : IsGreedy (· ≠ '<') qualifiedName? := by
  intro s name rest h
  obtain ⟨hname, rfl, hends⟩ := qualifiedName?_eq_some h
  refine ⟨writeName name, rfl, fun c hc => ?_, fun more hmore => qualifiedName?_writeName hname ((endsName_congr hmore).trans hends)⟩
  rintro rfl
  rcases isNamePart_of_mem_writeName hname hc with hpart | hcolon
  · exact absurd hpart (by decide)
  · exact absurd hcolon (by decide)

/-- A name starts with a character that starts names. -/
theorem exists_cons_of_qualifiedName? {name : WrittenName} (h : qualifiedName? s = some (name, rest)) :
    ∃ c more, s = c :: more ∧ c.isNameStart = true := by
  obtain ⟨hname, rfl, -⟩ := qualifiedName?_eq_some h
  have hqualified : isQualifiedName (Name.parts ⟨name.1, none, name.2⟩) = true := hname
  obtain ⟨c, more, hcons, hstart⟩ := exists_cons_of_written hqualified
  exact ⟨c, more ++ rest, by rw [writeName, hcons]; rfl, hstart⟩

/-! ### References -/

theorem mem_of_mapM {f : α → Option β} {l : List α} {results : List β} (h : l.mapM f = some results) :
    ∀ a ∈ l, (f a).isSome = true := by
  induction l generalizing results with
  | nil => exact fun a ha => by cases ha
  | cons b l ih =>
    rw [List.mapM_cons] at h
    obtain ⟨x, hx, h⟩ := Option.bind_eq_some_iff.1 h
    obtain ⟨xs, hxs, -⟩ := Option.bind_eq_some_iff.1 h
    intro a ha
    rcases List.mem_cons.1 ha with rfl | ha
    · rw [hx]
      rfl
    · exact ih hxs a ha

/-- The digits of a reference are digits. -/
theorem isSome_of_characterOf? {base : Nat} {digit? : CodePoint → Option Nat} {digits : Text} {c : CodePoint}
    (h : characterOf? base digit? digits = some c) : ∀ d ∈ digits, (digit? d).isSome = true := by
  unfold characterOf? at h
  split at h
  · next hdigits => exact mem_of_mapM hdigits
  · cases h

/-- Between its two ends a reference holds no bracket. -/
theorem isLocal_reference? : IsLocal (· ≠ '<') reference? := by
  intro s c rest h
  unfold reference? at h
  split at h
  · cases h
  · next body behind hbreak =>
    obtain ⟨rfl, htaken⟩ := breakOn?_append_left hbreak
    obtain ⟨d, hd, heq⟩ := Option.map_eq_some_iff.1 h
    obtain ⟨rfl, rfl⟩ := Prod.mk.inj heq
    refine ⟨body ++ (";" : Text), rfl, List.append_ne_nil_of_right_ne_nil _ (by decide), fun c hc => ?_, fun more => ?_⟩
    · rintro rfl
      have hmem : ('<' : CodePoint) ∈ body := (List.mem_append.1 hc).resolve_right (by decide)
      split at hd
      · next digits hdigits =>
        rw [Text.eq_append_of_dropPrefix? hdigits] at hmem
        have hdigit := isSome_of_characterOf? hd _ ((List.mem_append.1 hmem).resolve_left (by decide))
        exact absurd hdigit (by decide)
      · split at hd
        · next digits hdigits =>
          rw [Text.eq_append_of_dropPrefix? hdigits] at hmem
          have hdigit := isSome_of_characterOf? hd _ ((List.mem_append.1 hmem).resolve_left (by decide))
          exact absurd hdigit (by decide)
        · obtain ⟨named, hnamed, -⟩ := Option.map_eq_some_iff.1 hd
          have hnone : ∀ named ∈ namedCharacters, ('<' : CodePoint) ∉ named.1 := by decide
          have hbody := List.find?_some hnamed
          rw [beq_iff_eq] at hbody
          exact hnone named (List.mem_of_find?_eq_some hnamed) (hbody ▸ hmem)
    · rw [reference?, htaken more]
      exact congrArg (Option.map (·, more)) hd

/-! ### What reaches to a mark -/

theorem isLocal_until? {mark : Text} (hne : mark ≠ []) : IsLocal (fun _ => True) (until? mark) := by
  intro s content rest h
  unfold until? at h
  split at h
  · next inside behind hbreak =>
    obtain ⟨rfl, htaken⟩ := breakOn?_append_left hbreak
    split at h
    · next hlegal =>
      obtain ⟨rfl, rfl⟩ := Prod.mk.inj (Option.some.inj h)
      refine ⟨inside ++ mark, rfl, List.append_ne_nil_of_right_ne_nil _ hne, fun _ _ => trivial, fun more => ?_⟩
      rw [until?, htaken more]
      exact if_pos hlegal
    · cases h
  · cases h

theorem isLocal_comment? : IsLocal (fun _ => True) comment? := by
  have hmark : ("--" : Text) ≠ [] := by decide
  have hbind := (isLocal_until? hmark).isGreedy.bind (q := fun content s => (s.dropPrefix? ">").map (content, ·))
    fun content => isLocal_dropPrefix? (by decide) (fun _ _ => trivial) content
  have hcomment : comment? = fun s => (until? "--" s).bind fun found => (found.2.dropPrefix? ">").map (found.1, ·) := by
    funext s
    unfold comment?
    cases until? "--" s <;> rfl
  rw [hcomment]
  exact hbind

theorem isLocal_instruction? : IsLocal (fun _ => True) instruction? := by
  intro s x rest h
  unfold instruction? at h
  split at h
  · cases h
  · next target behind htarget =>
    obtain ⟨hname, rfl⟩ := plainName?_eq_some htarget
    have hends := head?_of_plainName? htarget
    have hplain : ∀ t : Text, t.head? = behind.head? → plainName? (target ++ t) = some (target, t) :=
      fun t ht => plainName?_append hname (ht ▸ hends)
    split at h
    · cases h
    · next hreserved =>
      split at h
      · next behind' hdrop =>
        obtain ⟨rfl, rfl⟩ := Prod.mk.inj (Option.some.inj h)
        obtain rfl := Text.eq_append_of_dropPrefix? hdrop
        refine ⟨target ++ ("?>" : Text), (List.append_assoc _ _ _).symm, List.append_ne_nil_of_right_ne_nil _ (by decide),
          fun _ _ => trivial, fun more => ?_⟩
        rw [instruction?, List.append_assoc, hplain (("?>" : Text) ++ more) rfl]
        simp only [if_neg hreserved, Text.dropPrefix?_append]
      · next hdrop =>
        split at h
        · next hblank =>
          obtain ⟨⟨content, rest'⟩, hcontent, heq⟩ := Option.map_eq_some_iff.1 h
          obtain ⟨rfl, rfl⟩ := Prod.mk.inj heq
          have hmark : ("?>" : Text) ≠ [] := by decide
          obtain ⟨u, rfl, hne, -, htakes⟩ :=
            (isLocal_until? hmark).afterBlanks (fun _ _ => trivial) behind content rest' hcontent
          refine ⟨target ++ u, (List.append_assoc _ _ _).symm, List.append_ne_nil_of_right_ne_nil _ hne, fun _ _ => trivial,
            fun more => ?_⟩
          have hhead : (u ++ more).head? = (u ++ rest').head? := head?_append_of_ne_nil hne more rest'
          have hdrop' : Text.dropPrefix? (u ++ more) "?>" = none := by
            cases u with
            | nil => exact absurd rfl hne
            | cons c u =>
              have hc : c ≠ '?' := by
                rintro rfl
                exact absurd (show (CodePoint.ofChar '?').isBlank = true from hblank) (by decide)
              exact if_neg hc
          rw [instruction?, List.append_assoc, hplain _ hhead]
          simp only [if_neg hreserved, hdrop', hhead, if_pos hblank]
          exact congrArg (Option.map fun found => ((target, some found.1), found.2)) (htakes more)
        · cases h

/-! ### Attributes -/

theorem exists_cons_of_splitOn (sep : CodePoint) (s : Text) : ∃ piece pieces, Text.splitOn sep s = piece :: pieces := by
  cases s with
  | nil => exact ⟨[], [], rfl⟩
  | cons c s =>
    rw [Text.splitOn]
    split
    · exact ⟨[], [], rfl⟩
    · split
      · exact ⟨_, _, rfl⟩
      · exact ⟨_, _, rfl⟩

/-- What stands in a text stands in one of the pieces between separators, or is a separator. -/
theorem mem_splitOn (sep : CodePoint) {c : CodePoint} (hc : c ∈ s) : c = sep ∨ ∃ piece ∈ Text.splitOn sep s, c ∈ piece := by
  induction s with
  | nil => cases hc
  | cons d s ih =>
    obtain ⟨piece, pieces, hsplit⟩ := exists_cons_of_splitOn sep s
    rw [hsplit] at ih
    rw [Text.splitOn, hsplit]
    dsimp only
    by_cases hd : d = sep
    · rw [if_pos hd]
      rcases List.mem_cons.1 hc with rfl | hc
      · exact .inl hd
      · rcases ih hc with heq | ⟨q, hq, hmem⟩
        · exact .inl heq
        · exact .inr ⟨q, List.mem_cons_of_mem _ hq, hmem⟩
    · rw [if_neg hd]
      rcases List.mem_cons.1 hc with rfl | hc
      · exact .inr ⟨c :: piece, List.mem_cons_self, List.mem_cons_self⟩
      · rcases ih hc with heq | ⟨q, hq, hmem⟩
        · exact .inl heq
        · rcases List.mem_cons.1 hq with rfl | hq
          · exact .inr ⟨d :: q, List.mem_cons_self, List.mem_cons_of_mem _ hmem⟩
          · exact .inr ⟨q, List.mem_cons_of_mem _ hq, hmem⟩

theorem not_mem_of_valueText? {v : Text} (h : valueText? s = some v) : ('<' : CodePoint) ∉ s := by
  unfold valueText? at h
  split at h
  · next hs =>
    intro hmem
    have hnot := (Bool.and_eq_true_iff.1 hs).2
    rw [Text.containsPoint, List.elem_eq_mem, decide_eq_true hmem] at hnot
    cases hnot
  · cases h

theorem not_mem_of_valuePiece? {v : Text} (h : valuePiece? s = some v) : ('<' : CodePoint) ∉ s := by
  unfold valuePiece? at h
  split at h
  · next c rest hreference =>
    obtain ⟨w, hw, -⟩ := Option.map_eq_some_iff.1 h
    obtain ⟨u, rfl, -, hu, -⟩ := isLocal_reference? s c rest hreference
    intro hmem
    rcases List.mem_append.1 hmem with hmem | hmem
    · exact hu _ hmem rfl
    · exact not_mem_of_valueText? hw hmem
  · cases h

/-- A value that is written holds no opening bracket. -/
theorem not_mem_of_value? {v : Text} (h : value? s = some v) : ('<' : CodePoint) ∉ s := by
  intro hmem
  rcases mem_splitOn '&' hmem with heq | ⟨piece, hpiece, hmem⟩
  · exact absurd heq (by decide)
  unfold value? at h
  split at h
  · next hsplit =>
    rw [hsplit] at hpiece
    cases hpiece
  · next first pieces hsplit =>
    obtain ⟨u, hu, h⟩ := Option.bind_eq_some_iff.1 h
    obtain ⟨us, hus, -⟩ := Option.bind_eq_some_iff.1 h
    rw [hsplit] at hpiece
    rcases List.mem_cons.1 hpiece with rfl | hpiece
    · exact not_mem_of_valueText? hu hmem
    · obtain ⟨w, hw⟩ := Option.isSome_iff_exists.1 (mem_of_mapM hus piece hpiece)
      exact not_mem_of_valuePiece? hw hmem

/-- A value between two quotes. -/
def quotedValue? (s : Text) : Option (Text × Text) :=
  (s.dropOneOf? ["\"", "'"]).bind fun (quote, rest) =>
    (rest.breakOn? quote).bind fun (written, rest) => (value? written).map (·, rest)

theorem isLocal_quotedValue? : IsLocal (· ≠ '<') quotedValue? := by
  intro s v rest h
  obtain ⟨⟨quote, behind⟩, hquote, h⟩ := Option.bind_eq_some_iff.1 h
  obtain ⟨⟨written, behind'⟩, hbreak, h⟩ := Option.bind_eq_some_iff.1 h
  obtain ⟨w, hw, heq⟩ := Option.map_eq_some_iff.1 h
  obtain ⟨rfl, rfl⟩ := Prod.mk.inj heq
  obtain ⟨rfl, htaken⟩ := breakOn?_append_left hbreak
  have hmark : s = quote ++ (written ++ quote ++ behind') ∧ quote ≠ [] ∧ ('<' : CodePoint) ∉ quote ∧
      ∀ t : Text, Text.dropOneOf? (quote ++ t) ["\"", "'"] = some (quote, t) := by
    unfold Text.dropOneOf? at hquote
    split at hquote
    · next behind hdouble =>
      obtain ⟨rfl, rfl⟩ := Prod.mk.inj (Option.some.inj hquote)
      refine ⟨Text.eq_append_of_dropPrefix? hdouble, by decide, by decide, fun t => ?_⟩
      simp only [Text.dropOneOf?, Text.dropPrefix?_append]
    · unfold Text.dropOneOf? at hquote
      split at hquote
      · next behind hsingle =>
        obtain ⟨rfl, rfl⟩ := Prod.mk.inj (Option.some.inj hquote)
        refine ⟨Text.eq_append_of_dropPrefix? hsingle, by decide, by decide, fun t => ?_⟩
        have hdouble : Text.dropPrefix? ("'" ++ t) "\"" = none := if_neg (by decide)
        simp only [Text.dropOneOf?, hdouble, Text.dropPrefix?_append]
      · cases hquote
  obtain ⟨rfl, hne, hnot, hdrop⟩ := hmark
  refine ⟨quote ++ (written ++ quote), by simp, List.append_ne_nil_of_left_ne_nil hne _, fun c hc => ?_, fun more => ?_⟩
  · rintro rfl
    rcases List.mem_append.1 hc with hc | hc
    · exact hnot hc
    · exact (List.mem_append.1 hc).elim (not_mem_of_value? hw) hnot
  · rw [quotedValue?, List.append_assoc, hdrop, Option.bind_some]
    dsimp only
    rw [htaken more, Option.bind_some]
    exact congrArg (Option.map (·, more)) hw

theorem isLocal_attribute? : IsLocal (· ≠ '<') attribute? := by
  have hblanks : ∀ c : CodePoint, c.isBlank = true → c ≠ '<' := by
    rintro c hc rfl
    exact absurd hc (by decide)
  have hequals : IsLocal (· ≠ '<') fun s : Text => (s.dropPrefix? "=").map ((), ·) :=
    isLocal_dropPrefix? (by decide) (by decide) ()
  have hvalue : ∀ name : WrittenName, IsLocal (· ≠ '<') fun s : Text =>
      (Text.dropPrefix? (s.dropWhile (·.isBlank)) "=").bind fun rest =>
        (quotedValue? (rest.dropWhile (·.isBlank))).map fun value => ((name, value.1), value.2) := by
    intro name
    have hbind := (hequals.afterBlanks hblanks).isGreedy.bind fun _ =>
      (isLocal_quotedValue?.afterBlanks hblanks).map fun value => (name, value)
    simpa only [Option.bind_map, Function.comp_def] using hbind
  have hattribute : attribute? = fun s => (qualifiedName? s).bind fun found =>
      (Text.dropPrefix? (found.2.dropWhile (·.isBlank)) "=").bind fun rest =>
        (quotedValue? (rest.dropWhile (·.isBlank))).map fun value => ((found.1, value.1), value.2) := by
    funext s
    simp only [attribute?, quotedValue?, Option.bind_eq_bind, Function.comp_def, Option.map_eq_bind, Option.bind_assoc,
      Option.bind_some]
  rw [hattribute]
  exact isGreedy_qualifiedName?.bind hvalue

/-! ### Tags -/

/-- Behind blanks stands the end of the tag or an attribute, which there is a blank in front of. -/
theorem attributes?_succ {w t : Text} (hw : ∀ c ∈ w, c.isBlank = true) (ht : ∀ c ∈ t.head?, c.isBlank = false) (fuel : Nat) :
    attributes? (fuel + 1) (w ++ t) = match t.dropPrefix? ">", t.dropPrefix? "/>" with
      | some rest, _ => some (([], false), rest)
      | none, some rest => some (([], true), rest)
      | none, none => if w = [] then none else (attribute? t).bind fun first =>
        (attributes? fuel first.2).map fun others => ((first.1 :: others.1.1, others.1.2), others.2) := by
  have hhead : (w ++ t).head?.any (·.isBlank) = true ↔ w ≠ [] := by
    cases w with
    | nil =>
      cases t with
      | nil => simp
      | cons c t => simp [ht c rfl]
    | cons c w => simp [hw c List.mem_cons_self]
  rw [attributes?, dropWhile_blanks hw ht]
  cases t.dropPrefix? ">" with
  | some rest => rfl
  | none =>
    cases t.dropPrefix? "/>" with
    | some rest => rfl
    | none =>
      by_cases hnil : w = []
      · simp only [if_pos hnil, if_neg fun hany => hhead.1 hany hnil]
      · simp only [if_neg hnil, if_pos (hhead.2 hnil), Option.bind_eq_bind, Option.map_eq_bind, Function.comp_def]

/-- What is read of the attributes of a tag, up to its end, starts with a blank or with the end. -/
theorem exists_cons_of_attributes? {fuel : Nat} {found : List (WrittenName × Text) × Bool}
    (h : attributes? fuel s = some (found, rest)) : ∃ c more, s = c :: more ∧ (c.isBlank = true ∨ c = '/' ∨ c = '>') := by
  cases fuel with
  | zero => cases h
  | succ fuel =>
    obtain ⟨w, t, rfl, -, hw, ht⟩ := exists_blanks s
    rw [attributes?_succ hw ht] at h
    cases w with
    | cons c w => exact ⟨c, w ++ t, rfl, .inl (hw c List.mem_cons_self)⟩
    | nil =>
      split at h
      · next behind hend => exact ⟨'>', behind, Text.eq_append_of_dropPrefix? hend, .inr (.inr rfl)⟩
      · next behind _ hend => exact ⟨'/', ('>' : CodePoint) :: behind, Text.eq_append_of_dropPrefix? hend, .inr (.inl rfl)⟩
      · cases h

/-- An attribute starts with a name. -/
theorem exists_cons_of_attribute? {found : WrittenName × Text} (h : attribute? s = some (found, rest)) :
    ∃ c more, s = c :: more ∧ c.isNameStart = true := by
  obtain ⟨⟨name, behind⟩, hname, -⟩ := Option.bind_eq_some_iff.1 h
  exact exists_cons_of_qualifiedName? hname

/-- Behind blanks an attribute is read, and then the others. -/
theorem attributes?_takes {w u : Text} {first : WrittenName × Text} (hw : ∀ c ∈ w, c.isBlank = true) (hne : w ≠ [])
    (hu : Takes attribute? u first) (fuel : Nat) (more : Text) :
    attributes? (fuel + 1) (w ++ (u ++ more)) =
      (attributes? fuel more).map fun others => ((first :: others.1.1, others.1.2), others.2) := by
  obtain ⟨c, v, hcons, hstart⟩ := exists_cons_of_attribute? (hu [])
  rw [List.append_nil] at hcons
  subst hcons
  have hmark : c ≠ '>' ∧ c ≠ '/' := by
    constructor <;> rintro rfl <;> exact absurd hstart (by decide)
  have hblank : ∀ d ∈ (c :: v ++ more).head?, d.isBlank = false := fun d hd =>
    Option.some.inj hd ▸ isBlank_of_isNameStart hstart
  have hclose : Text.dropPrefix? (c :: v ++ more) ">" = none := if_neg hmark.1
  have hempty : Text.dropPrefix? (c :: v ++ more) "/>" = none := if_neg hmark.2
  rw [attributes?_succ hw hblank, hclose, hempty]
  simp only [if_neg hne, hu more, Option.bind_some]

/-- All attributes and the end of a tag are taken up, whatever follows, if there is fuel enough. -/
theorem exists_of_attributes? {fuel : Nat} {found : List (WrittenName × Text) × Bool}
    (h : attributes? fuel s = some (found, rest)) :
    ∃ u, s = u ++ rest ∧ u ≠ [] ∧ (∀ c ∈ u, c ≠ '<') ∧
      ∀ fuel' ≥ u.length, ∀ more, attributes? fuel' (u ++ more) = some (found, more) := by
  have hblank : ∀ c : CodePoint, c.isBlank = true → c ≠ '<' := by
    rintro c hc rfl
    exact absurd hc (by decide)
  induction fuel generalizing s found rest with
  | zero => cases h
  | succ fuel ih =>
    obtain ⟨w, t, rfl, -, hw, ht⟩ := exists_blanks s
    have hclear : ∀ {u : Text}, (∀ c ∈ u, c ≠ '<') → ∀ c ∈ w ++ u, c ≠ '<' := fun hu c hc =>
      (List.mem_append.1 hc).elim (fun hc => hblank c (hw c hc)) (hu c)
    -- what is taken up is not empty, so there is fuel for one round at least
    have hread : ∀ {u : Text}, u ≠ [] → (∀ c ∈ u.head?, c.isBlank = false) → ∀ fuel' ≥ (w ++ u).length, ∀ more : Text,
        ∃ n, fuel' = n + 1 ∧ w ++ u ++ more = w ++ (u ++ more) ∧ ∀ c ∈ (u ++ more).head?, c.isBlank = false := by
      intro u hne hu fuel' hfuel more
      have hlength := List.length_pos_of_ne_nil hne
      rw [List.length_append] at hfuel
      refine ⟨fuel' - 1, by omega, List.append_assoc _ _ _, ?_⟩
      cases u with
      | nil => exact absurd rfl hne
      | cons c u => exact hu
    rw [attributes?_succ hw ht] at h
    split at h
    · next behind hend =>
      obtain ⟨rfl, rfl⟩ := Prod.mk.inj (Option.some.inj h)
      obtain rfl := Text.eq_append_of_dropPrefix? hend
      refine ⟨w ++ (">" : Text), (List.append_assoc _ _ _).symm, List.append_ne_nil_of_right_ne_nil _ (by decide),
        hclear (by decide), fun fuel' hfuel more => ?_⟩
      obtain ⟨n, rfl, hsplit, hfirst⟩ := hread (by decide) (by decide) fuel' hfuel more
      rw [hsplit, attributes?_succ hw hfirst, Text.dropPrefix?_append]
    · next behind _ hend =>
      obtain ⟨rfl, rfl⟩ := Prod.mk.inj (Option.some.inj h)
      obtain rfl := Text.eq_append_of_dropPrefix? hend
      refine ⟨w ++ ("/>" : Text), (List.append_assoc _ _ _).symm, List.append_ne_nil_of_right_ne_nil _ (by decide),
        hclear (by decide), fun fuel' hfuel more => ?_⟩
      obtain ⟨n, rfl, hsplit, hfirst⟩ := hread (by decide) (by decide) fuel' hfuel more
      have hopen : Text.dropPrefix? ("/>" ++ more) ">" = none := if_neg (by decide)
      rw [hsplit, attributes?_succ hw hfirst, hopen, Text.dropPrefix?_append]
    · split at h
      · cases h
      · next hnil =>
        obtain ⟨⟨first, behind⟩, hattribute, h⟩ := Option.bind_eq_some_iff.1 h
        obtain ⟨⟨⟨others, closed⟩, rest'⟩, hothers, heq⟩ := Option.map_eq_some_iff.1 h
        obtain ⟨rfl, rfl⟩ := Prod.mk.inj heq
        obtain ⟨u, rfl, hne, hclearu, hu⟩ := isLocal_attribute? t first behind hattribute
        obtain ⟨v, rfl, hnev, hclearv, hv⟩ := ih hothers
        refine ⟨w ++ (u ++ v), by simp only [List.append_assoc], by simp [hne],
          hclear fun d hd => (List.mem_append.1 hd).elim (hclearu d) (hclearv d), fun fuel' hfuel more => ?_⟩
        have hlength := List.length_pos_of_ne_nil hne
        rw [List.length_append, List.length_append] at hfuel
        obtain ⟨n, rfl⟩ : ∃ n, fuel' = n + 1 := ⟨fuel' - 1, by omega⟩
        rw [List.append_assoc, List.append_assoc, attributes?_takes hw hnil hu, hv n (by omega) more]
        rfl

theorem isLocal_openingTag? : IsLocal (· ≠ '<') openingTag? := by
  intro s tag rest h
  obtain ⟨⟨name, behind⟩, hname, h⟩ := Option.bind_eq_some_iff.1 h
  obtain ⟨⟨⟨attributes, closed⟩, rest'⟩, hattributes, h⟩ := Option.bind_eq_some_iff.1 h
  obtain ⟨rfl, rfl⟩ := Prod.mk.inj (Option.some.inj h)
  obtain ⟨u, rfl, hclearu, hu⟩ := isGreedy_qualifiedName? s name behind hname
  obtain ⟨v, rfl, hne, hclearv, hv⟩ := exists_of_attributes? hattributes
  refine ⟨u ++ v, (List.append_assoc _ _ _).symm, List.append_ne_nil_of_right_ne_nil _ hne, ?_, fun more => ?_⟩
  · exact fun c hc => (List.mem_append.1 hc).elim (hclearu c) (hclearv c)
  · have hread := hv ((v ++ more).length + 1) (by rw [List.length_append]; omega) more
    rw [openingTag?, List.append_assoc, hu (v ++ more) (head?_append_of_ne_nil hne more rest')]
    simp only [Option.bind_eq_bind, Option.bind_some, hread]

theorem isLocal_closingTag? : IsLocal (· ≠ '<') closingTag? := by
  have hblanks : ∀ c : CodePoint, c.isBlank = true → c ≠ '<' := by
    rintro c hc rfl
    exact absurd hc (by decide)
  have hend : ∀ name : WrittenName, IsLocal (· ≠ '<') fun s : Text => (s.dropPrefix? ">").map (name, ·) :=
    fun name => isLocal_dropPrefix? (by decide) (by decide) name
  have htag : closingTag? = fun s => (qualifiedName? s).bind fun found =>
      (Text.dropPrefix? (found.2.dropWhile (·.isBlank)) ">").map (found.1, ·) := by
    funext s
    simp only [closingTag?, Option.bind_eq_bind, Option.map_eq_bind, Function.comp_def]
  rw [htag]
  exact isGreedy_qualifiedName?.bind fun name => (hend name).afterBlanks hblanks

end EquationExport.Xml
