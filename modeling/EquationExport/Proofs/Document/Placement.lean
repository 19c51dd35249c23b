import EquationExport.Document.Create
import EquationExport.Document.Write
import EquationExport.Proofs.Document.Registered
import EquationExport.Proofs.Splice.Astray
import EquationExport.Proofs.Splice.Place

/-!
# Every equation in its own place

The document that a page is meant to become has every equation in the place where it was composed, and
everything else as it was composed. Splicing looks for tokens in the text of the document, though, and the text
of the page may hold one, as may the markup of an equation. The document that is created is the intended one
exactly if no token occurs in a piece that comes before its equation.

One direction is the run of the splicing over the document: in front of an equation all equations are in their
places, so its token is met in its own run first. For the other direction, consider the first equation whose
token is met earlier. From then on the document differs from the intended one in front of the end of the
equation's place, and no later step can mend this.
-/

/-!
### The run of a token

An equation is written as a run with its token and nothing else first. Written, it is a run in the sense of the
splicing, and it holds no other token.
-/

namespace EquationExport.Document

open EquationExport.Text EquationExport.Splice

theorem writeContent_eq_writePiece {s : Text} (h : ∀ c ∈ s, c ≠ CodePoint.ofChar '\t' ∧ c ≠ CodePoint.ofChar '\n' ∧
    c ≠ CodePoint.ofChar '\r') (piece : Text) : writeContent piece s = writePiece (piece ++ s) := by
  induction s generalizing piece with
  | nil => rw [writeContent, List.append_nil]
  | cons c s ih =>
    obtain ⟨htab, hline, hreturn⟩ := h c List.mem_cons_self
    rw [writeContent, if_neg htab, if_neg (not_or.2 ⟨hline, hreturn⟩), ih fun d hd => h d (List.mem_cons_of_mem _ hd),
      List.append_assoc, List.singleton_append]

/-- A token has no white space at its ends. -/
theorem trim_token {t : Text} (ht : IsToken t) : t.trim = t := by
  obtain ⟨n, rfl⟩ := ht
  have hspace : ¬ (CodePoint.ofChar '_').isSpace := by decide
  have hstart : (Registry.token n).trimStart = Registry.token n := List.dropWhile_cons_of_neg hspace
  have hend : (Registry.token n).reverse.dropWhile (·.isSpace) = (Registry.token n).reverse := by
    rw [token_eq, List.reverse_append]
    exact List.dropWhile_cons_of_neg hspace
  rw [Text.trim, hstart, Text.trimEnd, hend, List.reverse_reverse]

theorem escapeText_token {t : Text} (ht : IsToken t) : Xml.escapeText t = t := by
  have hpoint : ∀ c ∈ t, Xml.escapeTextPoint c = [c] := by
    intro c hc
    have hne : ∀ d : CodePoint, d.isTokenPoint = false → c ≠ d := fun d hd heq => ht.not_mem hd (heq ▸ hc)
    rw [Xml.escapeTextPoint, if_neg (hne _ (by decide)), if_neg (hne _ (by decide)), if_neg (hne _ (by decide)),
      if_neg (hne _ (by decide))]
  rw [Xml.escapeText, List.flatMap_congr hpoint, List.flatMap_singleton']

/-- What stands for an equation before it is put in its place. -/
theorem write_placeholder {t : Text} (ht : IsToken t) :
    (Run.placeholder t).write = ("<w:r><w:t>" : Text) ++ (t ++ ("</w:t></w:r>" : Text)) := by
  have hcontent : writeContent [] t = ("<w:t>" : Text) ++ t ++ ("</w:t>" : Text) := by
    have hne : ∀ c ∈ t, ∀ d : CodePoint, d.isTokenPoint = false → c ≠ d :=
      fun c hc d hd heq => ht.not_mem hd (heq ▸ hc)
    rw [writeContent_eq_writePiece fun c hc => ⟨hne c hc _ (by decide), hne c hc _ (by decide), hne c hc _ (by decide)⟩,
      List.nil_append, writePiece, if_neg (by simpa using ht.ne_nil), trim_token ht, escapeText_token ht]
    simp only [if_true]
  have hproperties : (Run.placeholder t).writeProperties = [] := rfl
  rw [Run.write, hproperties, show (Run.placeholder t).content = t from rfl, hcontent]
  simp [around, Run.placeholder, Text.ofString]

/-- Where something that begins with a tag stands in the run of a token. -/
theorem standsAt_placeholder {t needle : Text} {i : Nat} (ht : IsToken t)
    (hneedle : needle[0]? = some (CodePoint.ofChar '<'))
    (h : StandsAt (("<w:r><w:t>" : Text) ++ (t ++ ("</w:t></w:r>" : Text))) i needle) :
    i = 0 ∨ i = 5 ∨ ∃ k, i = 10 + t.length + k ∧ StandsAt ("</w:t></w:r>" : Text) k needle := by
  have hlength : 0 < needle.length := (List.getElem?_eq_some_iff.1 hneedle).1
  have hchar := h.getElem? hlength
  rw [Nat.add_zero, hneedle] at hchar
  rcases Nat.lt_or_ge i 10 with hlt | hge
  · have honly : ∀ j < 10, ("<w:r><w:t>" : Text)[j]? = some (CodePoint.ofChar '<') → j = 0 ∨ j = 5 := by decide
    rw [List.getElem?_append_left hlt] at hchar
    exact (honly i hlt hchar).imp_right .inl
  · rw [standsAt_append_right hge] at h
    rw [List.getElem?_append_right hge] at hchar
    rcases Nat.lt_or_ge (i - 10) t.length with hin | hbehind
    · rw [show ("<w:r><w:t>" : Text).length = 10 from by decide, List.getElem?_append_left hin] at hchar
      exact absurd (List.mem_of_getElem? hchar) (ht.not_mem (by decide))
    · exact .inr (.inr ⟨i - 10 - t.length, by omega, (standsAt_append_right hbehind).1 h⟩)

theorem isRun_placeholder {t : Text} (ht : IsToken t) : IsRun (Run.placeholder t).write := by
  rw [write_placeholder ht]
  have hlength : (("<w:r><w:t>" : Text) ++ (t ++ ("</w:t></w:r>" : Text))).length = 10 + t.length + 12 := by
    rw [List.length_append, List.length_append, show ("<w:r><w:t>" : Text).length = 10 from by decide,
      show ("</w:t></w:r>" : Text).length = 12 from by decide, Nat.add_assoc]
  refine ⟨.inr ⟨_, rfl⟩, fun i hi => ?_, ?_, fun i hi hs => ?_⟩
  · have hopen : StandsAt (("<w:r><w:t>" : Text) ++ (t ++ ("</w:t></w:r>" : Text))) i "<w:r" :=
      hi.elim (List.IsPrefix.trans (by decide)) (List.IsPrefix.trans (by decide))
    rcases standsAt_placeholder ht rfl hopen with rfl | rfl | ⟨k, rfl, hk⟩
    · rfl
    · exact absurd (hopen.getElem? (k := 3) (by decide)) (show some (CodePoint.ofChar 't') ≠ some (CodePoint.ofChar 'r') by decide)
    · have hend : k + 4 ≤ 12 := hk.add_length_le (by decide)
      have hnone : ∀ j < 12, ¬ StandsAt ("</w:t></w:r>" : Text) j "<w:r" := by decide
      exact absurd hk (hnone k (by omega))
  · have hstop : 10 + t.length + 12 - 6 = (("<w:r><w:t>" : Text) ++ (t ++ ("</w:t>" : Text))).length := by
      rw [List.length_append, List.length_append, show ("<w:r><w:t>" : Text).length = 10 from by decide,
        show ("</w:t>" : Text).length = 6 from by decide]
      omega
    have hstands := standsAt_append (("<w:r><w:t>" : Text) ++ (t ++ ("</w:t>" : Text))) "</w:r>" []
    rw [hlength, hstop]
    simpa [Text.ofString] using hstands
  · rw [hlength] at hi
    rcases standsAt_placeholder ht rfl hs with rfl | rfl | ⟨k, rfl, hk⟩
    · exact absurd (hs.getElem? (k := 1) (by decide)) (show some (CodePoint.ofChar 'w') ≠ some (CodePoint.ofChar '/') by decide)
    · exact absurd (hs.getElem? (k := 1) (by decide)) (show some (CodePoint.ofChar 'w') ≠ some (CodePoint.ofChar '/') by decide)
    · have hnone : ∀ j < 6, ¬ StandsAt ("</w:t></w:r>" : Text) j "</w:r>" := by decide
      exact hnone k (by omega) hk

/-- A token is in the run of another one only if they are the same. -/
theorem eq_of_infix_placeholder {s t : Text} (hs : IsToken s) (ht : IsToken t) (h : s <:+: (Run.placeholder t).write) :
    s = t := by
  rw [write_placeholder ht] at h
  refine hs.eq_of_infix_isToken ht ?_
  exact infix_of_infix_element "<w:r><w:t" "/w:t></w:r>" hs (by decide) (by decide) h

end EquationExport.Document

namespace EquationExport.Document

open EquationExport.Text EquationExport.Splice

/-! ### The intended document -/

/-- A piece as it is written with its equation in its place. -/
def Piece.finished : Piece → Text
  | .run r => r.write
  | .equation item => markup item

/-- The later piece is an equation, and its token occurs in the earlier piece. -/
def Piece.Hides (earlier later : Piece) : Prop := ∃ item, later = .equation item ∧ item.token <:+: earlier.finished

/-- No token occurs in a piece before its equation. -/
def Undisturbed (pieces : List Piece) : Prop := pieces.Pairwise fun earlier later => ¬ earlier.Hides later

/-- The document that a page is meant to become. -/
def intended (s : Surroundings) (html : Text) : Traced (Except Fault Exported) :=
  match outline html with
  | .error r => pure (.error (.rejected r))
  | .ok blocks => do
    match ← compose s blocks with
    | .error e => pure (.error (.unwritable e))
    | .ok (blocks, _) => pure (.ok ⟨textOf (writeBlocks Piece.finished blocks), s.settings.mathFont⟩)

/-- The pieces of the document of a page, in order; none if the document cannot be composed. -/
def piecesOf (s : Surroundings) (html : Text) : List Piece :=
  match outline html with
  | .error _ => []
  | .ok blocks => match (compose s blocks).value with
    | .error _ => []
    | .ok (blocks, _) => contentOfBlocks blocks

instance (earlier later : Piece) : Decidable (earlier.Hides later) :=
  match later with
  | .run _ => isFalse fun ⟨_, h, _⟩ => nomatch h
  | .equation item => decidable_of_iff (item.token <:+: earlier.finished)
      ⟨fun h => ⟨item, rfl, h⟩, fun ⟨_, heq, h⟩ => by cases heq; exact h⟩

instance (pieces : List Piece) : Decidable (Undisturbed pieces) :=
  inferInstanceAs (Decidable (pieces.Pairwise _))

/-! ### Tokens in written segments -/

/-- The pieces among some segments. -/
def pieces (segments : List (Segment Piece)) : List Piece := segments.filterMap Segment.piece?

@[simp] theorem pieces_nil : pieces [] = [] := rfl

@[simp] theorem pieces_frame (f : Text) (segments : List (Segment Piece)) :
    pieces (.frame f :: segments) = pieces segments := rfl

@[simp] theorem pieces_piece (p : Piece) (segments : List (Segment Piece)) :
    pieces (.piece p :: segments) = p :: pieces segments := rfl

@[simp] theorem pieces_append (segments more : List (Segment Piece)) :
    pieces (segments ++ more) = pieces segments ++ pieces more := List.filterMap_append

/-- Segments as they are written, given the way to write a piece. -/
def writeSegments (piece : Piece → Text) (segments : List (Segment Piece)) : Text :=
  segments.flatMap (·.write piece)

@[simp] theorem writeSegments_append (piece : Piece → Text) (segments more : List (Segment Piece)) :
    writeSegments piece (segments ++ more) = writeSegments piece segments ++ writeSegments piece more :=
  List.flatMap_append

@[simp] theorem writeSegments_cons (piece : Piece → Text) (segment : Segment Piece) (segments : List (Segment Piece)) :
    writeSegments piece (segment :: segments) = segment.write piece ++ writeSegments piece segments := rfl

@[simp] theorem writeSegments_singleton (piece : Piece → Text) (segment : Segment Piece) :
    writeSegments piece [segment] = segment.write piece := List.append_nil _

theorem Piece.exists_finished_eq_cons (p : Piece) : ∃ rest, p.finished = CodePoint.ofChar '<' :: rest := by
  cases p with
  | run r =>
    rw [Piece.finished, Run.write]
    generalize r.writeProperties ++ writeContent [] r.content ++ (if r.broken then empty "br" [] else []) = inside
    cases inside with
    | nil => exact ⟨_, rfl⟩
    | cons c inside => exact ⟨_, rfl⟩
  | equation item => exact exists_markup_eq_cons item

/-- A token in finished segments is in a piece. -/
theorem infix_writeSegments_iff {segments : List (Segment Piece)} {t : Text} (ht : IsToken t)
    (hframes : ∀ f, .frame f ∈ segments → IsFrame f) :
    t <:+: writeSegments Piece.finished segments ↔ ∃ p ∈ pieces segments, t <:+: p.finished := by
  -- every segment begins with a tag, and a token does not reach across one
  have hsplit : ∀ a b : Text, t <:+: a ++ CodePoint.ofChar '<' :: b ↔ t <:+: a ∨ t <:+: CodePoint.ofChar '<' :: b := by
    intro a b
    have htag : t <:+: CodePoint.ofChar '<' :: b ↔ t <:+: b := by
      have h := infix_append_cons_iff (a := []) (b := b) (ht.not_mem (c := CodePoint.ofChar '<') (by decide))
      rwa [List.nil_append, List.infix_nil, or_iff_right ht.ne_nil] at h
    rw [htag]
    exact infix_append_cons_iff (ht.not_mem (by decide))
  have htag : ∀ more : List (Segment Piece), (∀ f, .frame f ∈ more → IsFrame f) →
      writeSegments Piece.finished more = [] ∨
        ∃ rest, writeSegments Piece.finished more = CodePoint.ofChar '<' :: rest := by
    intro more hmore
    cases more with
    | nil => exact .inl rfl
    | cons segment more =>
      rw [writeSegments_cons]
      cases segment with
      | frame f =>
        obtain ⟨c, rest, rfl⟩ := List.exists_cons_of_ne_nil
          (l := f) fun hnil => by simpa [hnil] using (hmore f List.mem_cons_self).tag
        have hc := (hmore _ List.mem_cons_self).tag
        rw [List.head?_cons, Option.some.injEq] at hc
        exact .inr ⟨_, by rw [hc]; rfl⟩
      | piece p =>
        obtain ⟨rest, hrest⟩ := p.exists_finished_eq_cons
        exact .inr ⟨_, by rw [Segment.write, hrest]; rfl⟩
  induction segments with
  | nil => simp [writeSegments, pieces, ht.ne_nil]
  | cons segment segments ih =>
    have hframes' : ∀ f, .frame f ∈ segments → IsFrame f := fun f hf => hframes f (List.mem_cons_of_mem _ hf)
    have hjoin : t <:+: writeSegments Piece.finished (segment :: segments) ↔
        t <:+: segment.write Piece.finished ∨ t <:+: writeSegments Piece.finished segments := by
      rw [writeSegments_cons]
      rcases htag segments hframes' with hnil | ⟨rest, hrest⟩
      · rw [hnil, List.append_nil, List.infix_nil, or_iff_left ht.ne_nil]
      · rw [hrest]
        exact hsplit _ _
    have hrest := ih hframes'
    cases segment with
    | frame f =>
      have hnone : ¬ t <:+: f := not_infix_of_isToken ht (hframes f List.mem_cons_self).clean
      exact hjoin.trans ((or_congr_right hrest).trans (or_iff_right hnone))
    | piece p => exact hjoin.trans ((or_congr_right hrest).trans (by simp [Segment.write]))

/-! ### Splicing a written document -/

theorem not_hides_run (p : Piece) (r : Run) : ¬ p.Hides (.run r) := by
  rintro ⟨item, h, -⟩
  cases h

/-- A piece that is not hidden can be counted to those in front. -/
theorem undisturbed_shift {front rest : List Piece} {p : Piece} (h : ∀ earlier ∈ front, ¬ earlier.Hides p) :
    ((∀ earlier ∈ front ++ [p], ∀ later ∈ rest, ¬ earlier.Hides later) ∧ Undisturbed rest) ↔
      (∀ earlier ∈ front, ∀ later ∈ p :: rest, ¬ earlier.Hides later) ∧ Undisturbed (p :: rest) := by
  unfold Undisturbed
  rw [List.pairwise_cons]
  constructor
  · rintro ⟨hall, hrest⟩
    refine ⟨fun earlier he => List.forall_mem_cons.2 ⟨h earlier he, hall earlier (List.mem_append_left _ he)⟩, ?_, hrest⟩
    exact hall p (List.mem_append_right _ (List.mem_singleton_self p))
  · rintro ⟨hall, hp, hrest⟩
    refine ⟨fun earlier he => ?_, hrest⟩
    rcases List.mem_append.1 he with he | he
    · exact fun later hl => hall earlier he later (List.mem_cons_of_mem _ hl)
    · rw [List.mem_singleton.1 he]
      exact hp

/--
The equations of `front` are in their places. Splicing those of `rest` puts them in theirs exactly if none of
them is hidden.
-/
theorem foldlM_spliceOne_eq_iff {front rest : List (Segment Piece)} (hframes : ∀ f, .frame f ∈ front ++ rest → IsFrame f)
    (htokens : ∀ item ∈ equations (pieces rest), IsToken item.token)
    (hnodup : ((equations (pieces rest)).map (·.token)).Nodup) :
    (equations (pieces rest)).foldlM spliceOne (writeSegments Piece.finished front ++ writeSegments Piece.pending rest) =
        .ok (writeSegments Piece.finished (front ++ rest)) ↔
      (∀ earlier ∈ pieces front, ∀ later ∈ pieces rest, ¬ earlier.Hides later) ∧ Undisturbed (pieces rest) := by
  induction rest generalizing front with
  | nil => simp [pieces, equations, writeSegments, Undisturbed, pure, Except.pure]
  | cons segment rest ih =>
    rw [List.append_cons] at hframes ⊢
    have hfront : ∀ f, .frame f ∈ front → IsFrame f :=
      fun f hf => hframes f (List.mem_append_left _ (List.mem_append_left _ hf))
    cases segment with
    | frame f =>
      have h := ih hframes htokens hnodup
      rw [writeSegments_append Piece.finished front, writeSegments_singleton, pieces_append, pieces_frame, pieces_nil,
        List.append_nil, List.append_assoc] at h
      exact h
    | piece p =>
      cases p with
      | run r =>
        have h := ih hframes htokens hnodup
        rw [writeSegments_append Piece.finished front, writeSegments_singleton, pieces_append, pieces_piece, pieces_nil,
          undisturbed_shift fun p _ => not_hides_run p r, List.append_assoc] at h
        exact h
      | equation item =>
        obtain ⟨ht, htokens⟩ := List.forall_mem_cons.1 htokens
        obtain ⟨hnew, hnodup⟩ := List.nodup_cons.1 hnodup
        have hrun := isRun_placeholder ht
        have hin : item.token <:+: (Run.placeholder item.token).write := by
          rw [write_placeholder ht]
          exact List.infix_append' _ _ _
        obtain ⟨tail, hmarkup⟩ := exists_markup_eq item
        have hfinished : writeSegments Piece.finished (front ++ [.piece (.equation item)] ++ rest) =
            writeSegments Piece.finished front ++ (("<m:oMath" : Text) ++ (tail ++ writeSegments Piece.finished rest)) := by
          rw [writeSegments_append, writeSegments_append, writeSegments_singleton, Segment.write, Piece.finished, hmarkup]
          simp only [List.append_assoc]
        show (item :: equations (pieces rest)).foldlM spliceOne (writeSegments Piece.finished front ++
            ((Run.placeholder item.token).write ++ writeSegments Piece.pending rest)) = _ ↔ _
        rw [List.foldlM_cons, pieces_piece]
        by_cases hhidden : ∃ earlier ∈ pieces front, earlier.Hides (.equation item)
        · -- the token is met too early
          obtain ⟨earlier, hearlier, hhides⟩ := hhidden
          refine iff_of_false (fun h => ?_) fun h => h.1 earlier hearlier _ List.mem_cons_self hhides
          have hearly : item.token <:+: writeSegments Piece.finished front := by
            obtain ⟨_, heq, hinfix⟩ := hhides
            cases heq
            exact (infix_writeSegments_iff ht hfront).2 ⟨earlier, hearlier, hinfix⟩
          obtain ⟨document, hok, hastray⟩ := astray_of_infix_front hrun ht (writeSegments Piece.pending rest) hearly
          obtain ⟨document', hok', hastray'⟩ := hastray.foldlM_spliceOne hrun htokens fun other hother hsame =>
            hnew (List.mem_map.2 ⟨other, hother, eq_of_infix_placeholder (htokens other hother) ht hsame⟩)
          rw [hok, hfinished] at h
          exact hastray'.ne hrun _ (Except.ok.inj (hok'.symm.trans h))
        · -- the token is met in its own run first
          have hnot : ¬ item.token <:+: writeSegments Piece.finished front := by
            intro hinfix
            obtain ⟨earlier, hearlier, hin⟩ := (infix_writeSegments_iff ht hfront).1 hinfix
            exact hhidden ⟨earlier, hearlier, item, rfl, hin⟩
          have h := ih hframes htokens hnodup
          rw [writeSegments_append Piece.finished front, writeSegments_singleton, pieces_append, pieces_piece, pieces_nil,
            undisturbed_shift fun p hp hhides => hhidden ⟨p, hp, hhides⟩] at h
          rw [spliceOne_append hrun ht hin hnot]
          exact h

/-! ### Whole documents -/

theorem heading_eq : heading.head? = some (CodePoint.ofChar '<') ∧ CodePoint.ofChar '_' ∉ heading ∧
    (documentTag? heading).any fun tag => tag.1.contains "xmlns:m=" := by decide +kernel

theorem isFrame_ending : IsFrame ending := by
  have h : ending.head? = some (CodePoint.ofChar '<') ∧ CodePoint.ofChar '_' ∉ ending := by decide +kernel
  exact ⟨h.1, h.2⟩

theorem framed_textOf (blocks : List (Block α)) :
    Framed (fun piece => textOf (writeBlocks piece blocks)) (contentOfBlocks blocks) := by
  have hheading : IsFrame heading := ⟨heading_eq.1, heading_eq.2.1⟩
  have h := ((Framed.frame hheading).append (framed_writeBlocks blocks)).append (Framed.frame isFrame_ending)
  rwa [List.nil_append, List.append_nil] at h

theorem documentTag?_append {s attributes rest : Text} (h : documentTag? s = some (attributes, rest)) (more : Text) :
    documentTag? (s ++ more) = some (attributes, rest ++ more) := by
  unfold documentTag? at h
  split at h
  · next r hr =>
    rw [dropPrefix?_eq_some_iff.1 hr, documentTag?, List.append_assoc, dropPrefix?_eq_some_iff.2 rfl]
    split at h
    · next hword =>
      have hword' : Text.atWordEnd (r ++ more) := by
        cases r with
        | nil => cases h
        | cons c r => exact hword
      simp only [if_pos hword', breakOn?_append h more]
    · cases h
  · cases h

/-- The namespace of equations is declared in every document that is written. -/
theorem declareMathNamespace_textOf (body : Text) : declareMathNamespace (textOf body) = textOf body := by
  obtain ⟨⟨attributes, rest⟩, htag, hdeclared⟩ := (Option.any_eq_true _ _).1 heading_eq.2.2
  have hbreak := breakAt?_of_found (documentTag?_append htag (body ++ ending))
  rw [← List.append_assoc] at hbreak
  rw [declareMathNamespace, show textOf body = heading ++ body ++ ending from rfl, hbreak]
  exact if_pos hdeclared

/-- A document with its equations spliced is the finished one exactly if it is undisturbed. -/
theorem spliceAll_eq_finished_iff {blocks : List (Block Piece)} {registry : Registry} (hnumbered : registry.Numbered)
    (hitems : registry.replacements = equations (contentOfBlocks blocks)) :
    spliceAll (textOf (writeBlocks Piece.pending blocks)) registry.replacements =
        .ok (textOf (writeBlocks Piece.finished blocks)) ↔ Undisturbed (contentOfBlocks blocks) := by
  obtain ⟨segments, hwrite, hframes, hpieces⟩ := framed_textOf blocks
  have hall : spliceAll (textOf (writeBlocks Piece.pending blocks)) registry.replacements =
      registry.replacements.foldlM spliceOne (textOf (writeBlocks Piece.pending blocks)) := by
    rw [spliceAll, declareMathNamespace_textOf]
    split
    · next hnil =>
      rw [List.isEmpty_iff.1 hnil]
      rfl
    · rfl
  have htokens : ∀ item ∈ equations (pieces segments), IsToken item.token := by
    rw [pieces, hpieces, ← hitems]
    exact fun _ => hnumbered.isToken
  have hnodup : ((equations (pieces segments)).map (·.token)).Nodup := by
    rw [pieces, hpieces, ← hitems]
    exact hnumbered.nodup
  have h := foldlM_spliceOne_eq_iff (List.nil_append segments ▸ hframes) htokens hnodup
  rw [pieces, hpieces] at h
  have hpending : textOf (writeBlocks Piece.pending blocks) = writeSegments Piece.pending segments := hwrite _
  have hfinished : textOf (writeBlocks Piece.finished blocks) = writeSegments Piece.finished segments := hwrite _
  rw [hall, hitems, hpending, hfinished]
  refine h.trans (and_iff_right ?_)
  exact fun _ hnone => absurd hnone List.not_mem_nil

/-! ### Creating a document -/

theorem spliced_eq_finished_iff {blocks : List (Block Piece)} {registry : Registry} {mathFont : Text}
    (hnumbered : registry.Numbered) (hitems : registry.replacements = equations (contentOfBlocks blocks)) :
    spliced mathFont blocks registry = .ok ⟨textOf (writeBlocks Piece.finished blocks), mathFont⟩ ↔
      Undisturbed (contentOfBlocks blocks) := by
  rw [← spliceAll_eq_finished_iff hnumbered hitems]
  unfold spliced
  cases spliceAll (textOf (writeBlocks Piece.pending blocks)) registry.replacements with
  | error f => simp
  | ok text => simp

/-- A page becomes no document, or its blocks are composed and the equations of the registry are spliced into them. -/
theorem value_create_cases (s : Surroundings) (html : Text) :
    (piecesOf s html = [] ∧ (create s html).value = (intended s html).value) ∨
      ∃ blocks registry, piecesOf s html = contentOfBlocks blocks ∧ registry.Numbered ∧
        registry.replacements = equations (contentOfBlocks blocks) ∧
        (create s html).value = spliced s.settings.mathFont blocks registry ∧
        (intended s html).value = .ok ⟨textOf (writeBlocks Piece.finished blocks), s.settings.mathFont⟩ := by
  unfold create intended piecesOf
  cases outline html with
  | error r => exact .inl ⟨rfl, rfl⟩
  | ok outlined =>
    simp only [Traced.value_bind]
    cases hcompose : (compose s outlined).value with
    | error e => exact .inl ⟨rfl, rfl⟩
    | ok composed =>
      obtain ⟨blocks, registry⟩ := composed
      obtain ⟨hnumbered, hitems⟩ := equations_of_compose hcompose
      exact .inr ⟨blocks, registry, rfl, hnumbered, hitems, rfl, rfl⟩

/--
The document that is created has every equation in its own place, and everything else as it was composed, exactly
if no token occurs in a piece that comes before its equation.
-/
theorem value_create_eq_intended_iff (s : Surroundings) (html : Text) :
    (create s html).value = (intended s html).value ↔ Undisturbed (piecesOf s html) := by
  rcases value_create_cases s html with ⟨hpieces, heq⟩ | ⟨blocks, registry, hpieces, hnumbered, hitems, hcreate, hintended⟩
  · rw [hpieces]
    exact iff_of_true heq List.Pairwise.nil
  · rw [hpieces, hcreate, hintended]
    exact spliced_eq_finished_iff hnumbered hitems

/-- A page whose text holds the token of its equation: the text is taken for the equation's place. -/
theorem value_create_ne_intended :
    let s : Surroundings := ⟨⟨fun _ => some "<m:oMath><m:r><m:t>x</m:t></m:r></m:oMath>", fun _ _ => none⟩,
      ⟨[], [], 8000, [], "Cambria Math", "Consolas", 5000, []⟩⟩
    let html : Text := "<p>__MATH_000001__</p><p><span class=\"katex\"><math><mi>x</mi></math></span></p>"
    (create s html).value ≠ (intended s html).value := by
  intro s html
  have hdisturbed : ¬ Undisturbed (piecesOf s html) := by decide +kernel
  rcases value_create_cases s html with ⟨hpieces, -⟩ | ⟨blocks, registry, hpieces, hnumbered, hitems, hcreate, hintended⟩
  · rw [hpieces] at hdisturbed
    exact absurd List.Pairwise.nil hdisturbed
  · rw [hpieces] at hdisturbed
    rw [hcreate, hintended]
    exact fun h => hdisturbed ((spliced_eq_finished_iff hnumbered hitems).1 h)

end EquationExport.Document
