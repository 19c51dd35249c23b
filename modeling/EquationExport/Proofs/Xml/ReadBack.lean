import EquationExport.Proofs.Xml.Legal
import EquationExport.Proofs.Xml.Written

/-!
# Trees that are read back

A reader that comes to what was written of a tree takes up a tree with the same tags, if all names in it mean in
the scope of the reader what they meant before, and if it is not too deep. White space between elements may be
lost. Nothing at all is lost where only elements without children have text.
-/

namespace EquationExport.Xml

open Node

/-! ### Steps of a reader -/

/-- The reader goes on from one place of a text to a later one, token by token. -/
inductive Reader.Steps : Reader → Text → Reader → Text → Prop where
  | refl (r : Reader) (s : Text) : Steps r s r s
  | head {r r' r'' : Reader} {s s' s'' : Text} :
    r.step? s = some (r', s') → s'.length < s.length → Steps r' s' r'' s'' → Steps r s r'' s''

namespace Reader

variable {r r' r'' : Reader} {s s' s'' : Text}

theorem Steps.one (h : r.step? s = some (r', s')) (hlength : s'.length < s.length) : Steps r s r' s' :=
  .head h hlength (.refl r' s')

theorem Steps.trans (h : Steps r s r' s') (h' : Steps r' s' r'' s'') : Steps r s r'' s'' := by
  induction h with
  | refl => exact h'
  | head hstep hlength _ ih => exact .head hstep hlength (ih h')

/-- A run takes all the steps up to the end. -/
theorem Steps.run? (h : Steps r s r' []) {fuel : Nat} (hfuel : s.length ≤ fuel) : run? fuel r s = some r' := by
  generalize hend : ([] : Text) = rest at h
  induction h generalizing fuel with
  | refl =>
    obtain rfl := hend
    cases fuel <;> rfl
  | @head r r₁ _ s s₁ _ hstep hlength _ ih =>
    cases s with
    | nil => exact absurd hlength (by simp)
    | cons c s =>
      cases fuel with
      | zero => exact absurd hfuel (by simp)
      | succ fuel =>
        rw [Reader.run?, hstep]
        refine ih ?_ hend
        simp only [List.length_cons] at hlength hfuel
        omega

end Reader

/-! ### Text -/

/-- A character of text stands for itself or is written as a reference. -/
theorem escapeTextPoint_cases (c : CodePoint) :
    (∃ pair ∈ valueReferences, c = pair.1 ∧ escapeTextPoint c = ('&' : CodePoint) :: pair.2) ∨
      (escapeTextPoint c = [c] ∧ c ≠ '&' ∧ c ≠ '<' ∧ c ≠ '>' ∧ c ≠ '\r') := by
  unfold escapeTextPoint
  split
  · next h => exact .inl ⟨('&', "amp;"), by simp [valueReferences], h, rfl⟩
  · split
    · next h => exact .inl ⟨('<', "lt;"), by simp [valueReferences], h, rfl⟩
    · split
      · next h => exact .inl ⟨('>', "gt;"), by simp [valueReferences], h, rfl⟩
      · split
        · next h => exact .inl ⟨('\r', "#13;"), by simp [valueReferences], h, rfl⟩
        · exact .inr ⟨rfl, by assumption, by assumption, by assumption, by assumption⟩

/-- The character is written as itself. -/
def isPlainPoint (c : CodePoint) : Bool := escapeTextPoint c == [c]

theorem ne_of_isPlainPoint {c : CodePoint} (h : isPlainPoint c = true) : c ≠ '&' ∧ c ≠ '<' ∧ c ≠ '>' ∧ c ≠ '\r' := by
  rcases escapeTextPoint_cases c with ⟨pair, hpair, rfl, heq⟩ | ⟨-, h⟩
  · have hall : ∀ pair ∈ valueReferences, ('&' : CodePoint) :: pair.2 ≠ [pair.1] := by decide
    rw [isPlainPoint, beq_iff_eq, heq] at h
    exact absurd h (hall pair hpair)
  · exact h

theorem escapeText_cons (c : CodePoint) (t : Text) : escapeText (c :: t) = escapeTextPoint c ++ escapeText t := rfl

theorem escapeText_append (s t : Text) : escapeText (s ++ t) = escapeText s ++ escapeText t := List.flatMap_append

theorem escapeText_of_plain {t : Text} (h : ∀ c ∈ t, isPlainPoint c = true) : escapeText t = t := by
  induction t with
  | nil => rfl
  | cons c t ih =>
    have hc : escapeTextPoint c = [c] := by simpa [isPlainPoint] using h c List.mem_cons_self
    rw [escapeText_cons, hc, ih fun d hd => h d (List.mem_cons_of_mem _ hd)]
    rfl

theorem normalizeLineEnds_of_plain {t : Text} (h : ∀ c ∈ t, isPlainPoint c = true) : normalizeLineEnds t = t := by
  induction t with
  | nil => rfl
  | cons c t ih =>
    rw [normalizeLineEnds, if_neg (ne_of_isPlainPoint (h c List.mem_cons_self)).2.2.2,
      ih fun d hd => h d (List.mem_cons_of_mem _ hd)]

/-- The element with more content, read in some other treatment of white space. -/
def Frame.extend (f : Frame) (pieces : List Piece) (spacing : Spacing) : Frame :=
  { f with pieces := pieces ++ f.pieces, spacing := spacing }

/-- The reader with more content of the innermost element. -/
def Reader.extend (r : Reader) (pieces : List Piece) (spacing : Spacing) : Reader :=
  { r with innermost := r.innermost.extend pieces spacing }

theorem Reader.extend_extend (r : Reader) (a b : List Piece) (x y : Spacing) :
    (r.extend a x).extend b y = r.extend (b ++ a) y := by
  simp [Reader.extend, Frame.extend, List.append_assoc]

theorem Reader.push_eq_extend (r : Reader) (p : Piece) : r.push p = r.extend [p] r.innermost.spacing := rfl

/-- Nothing but text has been taken up in the innermost element. -/
def Reader.HoldsText (r : Reader) : Prop := ∀ p ∈ r.innermost.pieces, p.isText = true

/-- What is put in front of what has been taken up: pieces of text. -/
def textPieces (ts : List Text) : List Piece := (ts.map Piece.text).reverse

theorem not_startsWith_of_ne {s pre : Text} {c p : CodePoint} (h : c ≠ p) : Text.dropPrefix? (c :: s) (p :: pre) = none := by
  rw [Text.dropPrefix?, if_neg h]

theorem readStretch (r : Reader) {c : CodePoint} {t following : Text} (hplain : ∀ d ∈ c :: t, isPlainPoint d = true)
    (hlegal : isLegal (c :: t) = true) (hfollowing : ∃ d rest, following = d :: rest ∧ (d = '<' ∨ d = '&')) :
    r.step? (c :: t ++ following) = some ({ r with innermost := r.innermost.addText (c :: t) following }, following) := by
  obtain ⟨hamp, hlt, -, -⟩ := ne_of_isPlainPoint (hplain c List.mem_cons_self)
  have hopen : Text.dropPrefix? (c :: t ++ following) "<" = none := not_startsWith_of_ne hlt
  have hreference : Text.dropPrefix? (c :: t ++ following) "&" = none := not_startsWith_of_ne hamp
  have hspan : Text.span (c :: t ++ following) (fun d => d != '<' && d != '&') = (c :: t, following) := by
    have hall : ∀ d ∈ c :: t, (d != '<' && d != '&') = true := by
      intro d hd
      obtain ⟨hdamp, hdlt, -, -⟩ := ne_of_isPlainPoint (hplain d hd)
      simp [hdamp, hdlt]
    obtain ⟨d, rest, rfl, hd⟩ := hfollowing
    have hd' : (d != '<' && d != '&') = false := by rcases hd with rfl | rfl <;> decide
    rw [Text.span, List.takeWhile_append_of_pos hall, List.dropWhile_append_of_pos hall,
      List.takeWhile_cons_of_neg (by simp [hd']), List.dropWhile_cons_of_neg (by simp [hd']), List.append_nil]
  have hmark : Text.contains (c :: t) "]]>" = false := by
    rw [← Bool.not_eq_true, Text.contains_iff]
    intro hinfix
    have hmem : ('>' : CodePoint) ∈ c :: t := hinfix.subset (by decide)
    exact (ne_of_isPlainPoint (hplain _ hmem)).2.2.1 rfl
  rw [Reader.step?, hopen, hreference]
  simp only [hspan, hlegal, hmark, Bool.not_false, Bool.and_self, if_true, normalizeLineEnds_of_plain hplain]

theorem readReference (r : Reader) {pair : CodePoint × Text} (h : pair ∈ valueReferences) (s : Text) :
    r.step? (('&' : CodePoint) :: (pair.2 ++ s)) = some (r.push (.text [pair.1]), s) := by
  have hopen : Text.dropPrefix? (('&' : CodePoint) :: (pair.2 ++ s)) "<" = none := not_startsWith_of_ne (by decide)
  have hreference : Text.dropPrefix? (('&' : CodePoint) :: (pair.2 ++ s)) "&" = some (pair.2 ++ s) :=
    Text.dropPrefix?_append "&" _
  rw [Reader.step?, hopen, hreference]
  simp only [reference?_append h, Option.map_some]

/-- Nothing is left out of a text at this place: something stands before it, it is the whole content, or it is no layout. -/
def Reader.Keeps (r : Reader) (t following : Text) : Prop :=
  r.HoldsText ∧ (r.innermost.pieces ≠ [] ∨ following.startsWith "</" = true ∨ r.innermost.spacing = .preserve ∨
    t.all (·.isBlank) = false)

theorem Reader.HoldsText.leavesOut {r : Reader} (h : r.HoldsText) (hne : r.innermost.pieces ≠ []) (following : Text) :
    r.innermost.leavesOut following = false := by
  cases hpieces : r.innermost.pieces with
  | nil => exact absurd hpieces hne
  | cons p pieces =>
    have hp : p.isText = true := h p (by simp [hpieces])
    obtain ⟨q, hq⟩ : ∃ q, (p :: pieces).getLast? = some q := ⟨_, List.getLast?_eq_some_getLast (by simp)⟩
    rw [Frame.leavesOut, hpieces, hq]
    simp [hp]

/-- A stretch of text is taken up or left out; what is kept is taken up, and so is what a reference follows. -/
theorem exists_extend_of_addText (r : Reader) (t following : Text)
    (hfollowing : ∃ d rest, following = d :: rest ∧ (d = '<' ∨ d = '&')) :
    ∃ ts spacing, ({ r with innermost := r.innermost.addText t following } : Reader) = r.extend (textPieces ts) spacing ∧
      (r.Keeps t following ∨ following.startsWith "<" = false → ts = [t]) := by
  unfold Frame.addText
  dsimp only
  split
  · next hleft =>
    refine ⟨[], r.innermost.spacing, rfl, fun hkeeps => absurd hleft ?_⟩
    obtain ⟨d, rest, rfl, -⟩ := hfollowing
    rcases hkeeps with ⟨hholds, hne | hclose | hpreserve | hplain⟩ | hnone
    · simp [hholds.leavesOut hne]
    · by_cases hne : r.innermost.pieces = []
      · simp [Frame.leavesOut, hne, hclose]
      · simp [hholds.leavesOut hne]
    · simp [Frame.leavesOut, hpreserve]
    · simp [hplain]
    · simp [hnone]
  · exact ⟨[t], _, rfl, fun _ => rfl⟩

theorem Reader.HoldsText.extend {r : Reader} (h : r.HoldsText) (ts : List Text) (spacing : Spacing) :
    (r.extend (textPieces ts) spacing).HoldsText := by
  intro p hp
  rcases List.mem_append.1 hp with hp | hp
  · obtain ⟨t, -, rfl⟩ := List.mem_map.1 (List.mem_reverse.1 hp)
    rfl
  · exact h p hp

/-- Behind the longest stretch without references stands a reference, or nothing. -/
theorem escapeText_dropWhile_cases (t : Text) : t.dropWhile isPlainPoint = [] ∨
    ∃ more, escapeText (t.dropWhile isPlainPoint) = ('&' : CodePoint) :: more := by
  have hnot := List.head?_dropWhile_not isPlainPoint t
  cases hbehind : t.dropWhile isPlainPoint with
  | nil => exact .inl rfl
  | cons d behind =>
    rw [hbehind] at hnot
    have hd : isPlainPoint d = false := by simpa using hnot
    rcases escapeTextPoint_cases d with ⟨pair, -, -, heq⟩ | ⟨heq, -⟩
    · exact .inr ⟨pair.2 ++ escapeText behind, by rw [escapeText_cons, heq, List.cons_append]⟩
    · simp [isPlainPoint, heq] at hd

theorem textPieces_append (ts us : List Text) : textPieces us ++ textPieces ts = textPieces (ts ++ us) := by
  simp [textPieces]

/-- Text is read as pieces of text, and all of it if it is kept. -/
theorem exists_readText (t : Text) (hlegal : isLegal t = true) (rest : Text) (r : Reader) :
    ∃ ts spacing, Reader.Steps r (escapeText t ++ ('<' : CodePoint) :: rest) (r.extend (textPieces ts) spacing)
        (('<' : CodePoint) :: rest) ∧
      (t = [] → ts = [] ∧ spacing = r.innermost.spacing) ∧
      (r.Keeps t (('<' : CodePoint) :: rest) → ts.flatten = t) := by
  induction hn : t.length using Nat.strongRecOn generalizing t r with
  | _ n ih =>
    cases t with
    | nil => exact ⟨[], r.innermost.spacing, .refl _ _, fun _ => ⟨rfl, rfl⟩, fun _ => rfl⟩
    | cons c t =>
      have hall : isLegal t = true := by
        rw [isLegal, List.all_cons, Bool.and_eq_true] at hlegal
        exact hlegal.2
      cases hplain : isPlainPoint c with
      | false =>
        rcases escapeTextPoint_cases c with ⟨pair, hpair, rfl, heq⟩ | ⟨heq, -⟩
        · obtain ⟨ts, spacing, hsteps, -, htext⟩ := ih t.length (by rw [← hn]; simp) t hall
            (r.push (.text [pair.1])) rfl
          have hs : escapeText (pair.1 :: t) ++ ('<' : CodePoint) :: rest =
              ('&' : CodePoint) :: (pair.2 ++ (escapeText t ++ ('<' : CodePoint) :: rest)) := by
            rw [escapeText_cons, heq, List.cons_append, List.cons_append, List.append_assoc]
          refine ⟨[pair.1] :: ts, spacing, ?_, fun h => absurd h (by simp), fun hkeeps => ?_⟩
          · have hextend : (r.push (.text [pair.1])).extend (textPieces ts) spacing =
                r.extend (textPieces ([pair.1] :: ts)) spacing := by
              rw [Reader.push_eq_extend, Reader.extend_extend, show [Piece.text [pair.1]] = textPieces [[pair.1]] from rfl,
                textPieces_append, List.singleton_append]
            rw [← hextend, hs]
            refine .head (readReference r hpair _) ?_ hsteps
            simp only [List.length_append, List.length_cons]
            omega
          · have hpush : (r.push (.text [pair.1])).HoldsText := hkeeps.1.extend [[pair.1]] r.innermost.spacing
            rw [List.flatten_cons, htext ⟨hpush, .inl (List.cons_ne_nil _ _)⟩]
            rfl
        · simp [isPlainPoint, heq] at hplain
      | true =>
        -- the longest stretch without references is one token
        let stretch : Text := t.takeWhile isPlainPoint
        let behind : Text := t.dropWhile isPlainPoint
        have ht : t = stretch ++ behind := List.takeWhile_append_dropWhile.symm
        have hstretch : ∀ d ∈ c :: stretch, isPlainPoint d = true := by
          intro d hd
          rcases List.mem_cons.1 hd with rfl | hd
          · exact hplain
          · exact List.all_eq_true.1 List.all_takeWhile d hd
        have hstretchlegal : isLegal (c :: stretch) = true ∧ isLegal behind = true := by
          have h : isLegal ((c :: stretch) ++ behind) = true := by
            rw [List.cons_append, ← ht]
            exact hlegal
          exact isLegal_append.1 h
        have hs : escapeText (c :: t) ++ ('<' : CodePoint) :: rest =
            (c :: stretch) ++ (escapeText behind ++ ('<' : CodePoint) :: rest) := by
          have hescape : escapeText ((c :: stretch) ++ behind) = (c :: stretch) ++ escapeText behind := by
            rw [escapeText_append, escapeText_of_plain hstretch]
          rw [show c :: t = (c :: stretch) ++ behind by rw [List.cons_append, ← ht], hescape, List.append_assoc]
        have hfollowing : ∃ d more, escapeText behind ++ ('<' : CodePoint) :: rest = d :: more ∧ (d = '<' ∨ d = '&') := by
          rcases escapeText_dropWhile_cases t with hnil | ⟨more, hmore⟩
          · exact ⟨'<', rest, by rw [show behind = [] from hnil]; rfl, .inl rfl⟩
          · exact ⟨'&', _, congrArg (· ++ ('<' : CodePoint) :: rest) hmore, .inr rfl⟩
        have hstep := readStretch r hstretch hstretchlegal.1 hfollowing
        obtain ⟨us, spacing, hadd, htaken⟩ := exists_extend_of_addText r (c :: stretch) _ hfollowing
        rw [hadd] at hstep
        obtain ⟨ts, spacing', hsteps, -, htext⟩ := ih behind.length (by
          rw [← hn, List.length_cons, ht, List.length_append]
          omega) behind hstretchlegal.2 (r.extend (textPieces us) spacing) rfl
        refine ⟨us ++ ts, spacing', ?_, fun h => absurd h (by simp), fun hkeeps => ?_⟩
        · rw [Reader.extend_extend, textPieces_append] at hsteps
          rw [hs]
          refine .head hstep ?_ hsteps
          simp only [List.length_append, List.length_cons]
          omega
        · have hus : us = [c :: stretch] := by
            refine htaken ?_
            rcases escapeText_dropWhile_cases t with hnil | ⟨more, hmore⟩
            · have hwhole : stretch = t := by rw [ht, show behind = [] from hnil, List.append_nil]
              exact .inl (by rwa [show behind = [] from hnil, hwhole])
            · have hnone : Text.dropPrefix? (('&' : CodePoint) :: (more ++ ('<' : CodePoint) :: rest)) "<" = none :=
                not_startsWith_of_ne (by decide)
              refine .inr ?_
              rw [show escapeText behind = _ from hmore, List.cons_append, Text.startsWith, hnone]
              rfl
          obtain rfl := hus
          rw [List.flatten_append, htext ⟨hkeeps.1.extend _ spacing, .inl (List.cons_ne_nil _ _)⟩, ht]
          simp

end EquationExport.Xml
