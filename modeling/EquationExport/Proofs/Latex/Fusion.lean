import EquationExport.Proofs.Latex.Deletion
import EquationExport.Proofs.Text.Occurrence

/-!
# Control words of a source in normal form

Taking math delimiters off takes no control words in, and expanding a matrix environment brings in those of its
plain form alone. The deletions of sizes, styles and negative spaces can fuse tokens: `\alpha\!x` becomes
`\alphax`. As long as no deletion joins what stands in front of the command with what stands behind it, the control
words of the normal form are those of the source, but for plain fractions and the words around expanded matrices.
-/

namespace EquationExport.Latex

open Reached

variable {A : Allowed} {s old rest put : Text}

/-! ### Matrix environments -/

/-- The control words around an expanded matrix. -/
def matrixWords : List Text := Text.ofStrings ["left", "right", "begin", "end"]

/-- The body of an environment, the argument in front of it and its end make up what is read. -/
theorem exists_of_body? {name after body : Text} (h : body? name after = some (body, rest)) :
    ∃ argument, after = argument ++ (body ++ (closing name ++ rest)) ∧ (argument = [] ∨ ∃ inside, argument = inside ++ "]") := by
  unfold body? at h
  rcases Option.or_eq_some_iff.1 h with h | ⟨-, h⟩
  · obtain ⟨behind, hbehind, hbreak⟩ := Option.bind_eq_some_iff.1 h
    obtain ⟨rfl, -⟩ := Text.breakOn?_eq_some_iff.1 hbreak
    unfold skipArgument? at hbehind
    split at hbehind
    · next r hr =>
      obtain ⟨⟨inside, behind'⟩, hinside, rfl⟩ := Option.map_eq_some_iff.1 hbehind
      obtain ⟨rfl, -⟩ := Text.breakOn?_eq_some_iff.1 hinside
      refine ⟨("[" ++ inside) ++ "]", ?_, .inr ⟨_, rfl⟩⟩
      rw [Text.eq_append_of_dropPrefix? hr]
      simp
    · cases hbehind
  · obtain ⟨rfl, -⟩ := Text.breakOn?_eq_some_iff.1 h
    exact ⟨[], by simp, .inl rfl⟩

/-- The opening of an environment. -/
def opening (name : Text) : Text := "\\begin\x7b" ++ name ++ "\x7d"

/-- An environment at the front, with its body, and the plain matrix that is put in its place. -/
theorem exists_of_expandMatrix? (h : expandMatrix? s = some (put, rest)) :
    ∃ kind ∈ matrixKinds, ∃ name ∈ [kind.name, kind.name ++ ("*" : Text)], ∃ argument body,
      s = opening name ++ (argument ++ (body ++ (closing name ++ rest))) ∧
        put = kind.render body ∧ (argument = [] ∨ ∃ inside, argument = inside ++ "]") := by
  unfold expandMatrix? at h
  split at h
  · obtain ⟨kind, hkind, hexpand⟩ := List.exists_of_findSome?_eq_some h
    obtain ⟨name, hname, hmap⟩ := List.exists_of_findSome?_eq_some hexpand
    obtain ⟨⟨body, rest'⟩, hbody, heq⟩ := Option.map_eq_some_iff.1 hmap
    obtain ⟨rfl, rfl⟩ := Prod.mk.inj heq
    obtain ⟨after, hafter, hbody⟩ := Option.bind_eq_some_iff.1 hbody
    obtain ⟨argument, rfl, hargument⟩ := exists_of_body? hbody
    exact ⟨kind, hkind, name, hname, argument, body, Text.eq_append_of_dropPrefix? hafter, rfl, hargument⟩
  · cases h

/--
Behind a backslash the text ends with a whole token and holds no control words but the given ones, whether the
backslash starts a token or ends one.
-/
abbrev Settles (words : List Text) (s : Text) : Prop :=
  ∀ r ∈ [token, backslash], r.read s = token ∧ ∀ w ∈ r.endedIn s, w ∈ words

/-- A command that settles, read from anywhere. -/
theorem Settles.read {words : List Text} (h : Settles words s) (r : Reached) :
    r.read (('\\' : CodePoint) :: s) = token ∧ ∀ w ∈ r.endedIn (('\\' : CodePoint) :: s), w ∈ r.pending ∨ w ∈ words := by
  by_cases hr : r = backslash
  · obtain ⟨hread, hended⟩ := h token (by simp)
    rw [hr, (read_backslash_backslash s).1, (read_backslash_backslash s).2]
    exact ⟨hread, fun w hw => .inr (hended w hw)⟩
  · obtain ⟨hread, hended⟩ := h backslash (by simp)
    rw [(read_backslash_cons hr s).1, (read_backslash_cons hr s).2]
    exact ⟨hread, fun w hw => (List.mem_append.1 hw).imp_right (hended w)⟩

namespace MatrixKind

/-- What stands in front of the body of the plain matrix, behind a backslash. -/
def front (kind : MatrixKind) : Text :=
  match kind.delimiters with
  | none => "begin\x7bmatrix\x7d"
  | some (left, _) => "left" ++ left ++ ("\\begin\x7bmatrix\x7d" : Text)

/-- What stands behind the body, behind a backslash. -/
def rear (kind : MatrixKind) : Text :=
  match kind.delimiters with
  | none => "end\x7bmatrix\x7d"
  | some (_, right) => "end\x7bmatrix\x7d\\right" ++ right

theorem render_eq (kind : MatrixKind) (body : Text) :
    kind.render body = (('\\' : CodePoint) :: kind.front) ++ (body ++ (('\\' : CodePoint) :: kind.rear)) := by
  unfold render front rear
  cases kind.delimiters <;> simp [Text.ofString]

theorem settles_front : ∀ kind ∈ matrixKinds, Settles matrixWords kind.front := by decide

theorem settles_rear : ∀ kind ∈ matrixKinds, Settles matrixWords kind.rear := by decide

theorem settles_opening : ∀ kind ∈ matrixKinds, ∀ name ∈ [kind.name, kind.name ++ ("*" : Text)],
    Settles matrixWords ("begin\x7b" ++ name ++ "\x7d") := by decide

theorem settles_closing : ∀ kind ∈ matrixKinds, ∀ name ∈ [kind.name, kind.name ++ ("*" : Text)],
    Settles matrixWords ("end\x7b" ++ name ++ "\x7d") := by decide

end MatrixKind

/-- An expanded matrix brings in the control words around it alone. -/
theorem fits_expandMatrix? (hA : ∀ w ∈ matrixWords, A w) : Fits A (fun _ => expandMatrix?) fun _ _ => True := by
  intro before out old rest put r happly _ _ _ hwords halong
  obtain ⟨kind, hkind, name, hname, argument, body, hs, rfl, hargument⟩ := exists_of_expandMatrix? happly
  obtain ⟨start, hopening, hopens⟩ : ∃ start, opening name = ('\\' : CodePoint) :: start ∧ Settles matrixWords start :=
    ⟨_, rfl, MatrixKind.settles_opening kind hkind name hname⟩
  obtain ⟨finish, hclosing, hcloses⟩ : ∃ finish, closing name = ('\\' : CodePoint) :: finish ∧ Settles matrixWords finish :=
    ⟨_, rfl, MatrixKind.settles_closing kind hkind name hname⟩
  rw [hopening, hclosing] at hs
  obtain rfl : old = (('\\' : CodePoint) :: start) ++ (argument ++ (body ++ (('\\' : CodePoint) :: finish))) := by
    refine (List.append_left_inj rest).1 ?_
    simpa using hs
  have hfront := (MatrixKind.settles_front kind hkind).read (token.read out)
  have hrear := (MatrixKind.settles_rear kind hkind).read (token.read body)
  have hargument' : token.read argument = token := by
    rcases hargument with rfl | ⟨inside, rfl⟩
    · rfl
    · exact read_concat_of_isQuiet (by decide) token inside
  have hbody : ∀ w ∈ token.words body, A w := by
    intro w hw
    refine hwords w ?_
    simp only [List.append_assoc]
    rw [words_append, (hopens.read r).1, words_append, hargument']
    exact List.mem_append_right _ (List.mem_append_right _ (words_subset_append (startsToken_backslash _) _ hw))
  rw [MatrixKind.render_eq]
  refine ⟨fun w hw => ?_, ?_⟩
  · rw [endedIn_append, endedIn_append, hfront.1, List.mem_append, List.mem_append] at hw
    rcases hw with hw | hw | hw
    · rcases hfront.2 w hw with hw | hw
      · exact halong.pending hwords (startsToken_backslash _) w hw
      · exact hA w hw
    · exact hbody w (List.mem_append_left _ hw)
    · rcases hrear.2 w hw with hw | hw
      · exact hbody w (List.mem_append_right _ hw)
      · exact hA w hw
  · simp only [read_append, (hopens.read r).1, hargument', (hcloses.read _).1, hfront.1, hrear.1]
    exact .same _

theorem advances_expandMatrix? : Text.Rule.Advances fun _ => expandMatrix? := by
  refine Text.advances_of_exists fun before s put rest h => ?_
  obtain ⟨kind, -, name, -, argument, body, rfl, -, -⟩ := exists_of_expandMatrix? h
  refine ⟨opening name ++ (argument ++ (body ++ closing name)), ?_, by simp⟩
  exact List.append_ne_nil_of_left_ne_nil (List.cons_ne_nil _ _) _

theorem controlWords_expandMatricesFor (hA : ∀ w ∈ matrixWords, A w) (rounds : Nat) (h : ∀ w ∈ controlWords s, A w) :
    ∀ w ∈ controlWords (expandMatricesFor rounds s), A w := by
  induction rounds generalizing s with
  | zero => exact h
  | succ rounds ih =>
    simp only [expandMatricesFor]
    split
    · exact h
    · exact ih (controlWords_substitute (fits_expandMatrix? hA) advances_expandMatrix? (fun _ _ => trivial) h)

/-! ### Math delimiters -/

theorem startsWith_iff {pre : Text} : s.startsWith pre = true ↔ pre <+: s := Text.dropPrefix?_isSome_iff

theorem endsWith_iff {post : Text} : s.endsWith post = true ↔ post <:+ s := by
  rw [Text.endsWith, startsWith_iff, List.reverse_prefix]

/-- What stands between two delimiters, with the delimiters around it. -/
theorem eq_of_between? {opening closing inner : Text} (h : between? opening closing s = some inner) :
    s = opening ++ (inner ++ closing) := by
  unfold between? at h
  split at h
  · next hends =>
    obtain ⟨hlength, hopens, hcloses⟩ := hends
    obtain rfl := Option.some.inj h
    obtain ⟨behind, rfl⟩ := startsWith_iff.1 hopens
    have hsuffix : closing <:+ behind := by
      refine List.suffix_of_suffix_length_le (endsWith_iff.1 hcloses) (List.suffix_append _ _) ?_
      rw [List.length_append] at hlength
      omega
    obtain ⟨inner, rfl⟩ := hsuffix
    have hcount : (opening ++ (inner ++ closing)).length - opening.length - closing.length = inner.length := by
      simp only [List.length_append]
      omega
    rw [hcount]
    simp
  · cases h

theorem controlWords_stripMathDelimiters (s : Text) : controlWords (stripMathDelimiters s) ⊆ controlWords s := by
  refine List.Subset.trans ?_ (controlWords_trim s)
  unfold stripMathDelimiters
  dsimp only
  split
  · next inner hinner =>
    obtain ⟨⟨opening, closing⟩, hmem, hbetween⟩ := List.exists_of_findSome?_eq_some hinner
    have hall : ∀ pair ∈ mathDelimiters, token.read pair.1 = token ∧ StartsToken pair.2 := by decide
    obtain ⟨hopening, hclosing⟩ := hall _ hmem
    rw [eq_of_between? hbetween]
    exact List.Subset.trans (List.Subset.trans (controlWords_trim inner) (controlWords_append_left hclosing))
      (controlWords_append_right hopening)
  · exact List.Subset.refl _

/-! ### The normal form -/

/-- The source without delimiters and with its matrices expanded, in which the first commands are deleted. -/
def expanded (s : Text) : Text := expandMatrixEnvironments (stripMathDelimiters s)

/-- No command that is deleted on the way to the normal form joins what stands around it. -/
structure Separated (s : Text) : Prop where
  sizes : ∀ place ∈ (expanded s).applications (wordDeletion sizeWords), ¬ Joins place.1 place.2
  styles : ∀ place ∈ (deleteWords sizeWords (expanded s)).applications (wordDeletion styleWords), ¬ Joins place.1 place.2
  negativeSpaces : ∀ place ∈ (plainSpacing (deleteWords styleWords (deleteWords sizeWords (expanded s)))).applications
    negativeSpaceDeletion, ¬ Joins place.1 place.2

/-- The control words that may stand in the normal form of a source. -/
def MayStand (s : Text) : Allowed := fun w =>
  w ∈ controlWords s ∨ (w = "frac" ∧ ∃ word ∈ fractionWords, word ∈ controlWords s) ∨
    (w ∈ matrixWords ∧ expanded s ≠ stripMathDelimiters s)

theorem mayStand_expanded (s : Text) : ∀ w ∈ controlWords (expanded s), MayStand s w := by
  intro w hw
  have hstrip := controlWords_stripMathDelimiters s
  by_cases hsame : expanded s = stripMathDelimiters s
  · rw [hsame] at hw
    exact .inl (hstrip hw)
  · have hallowed := controlWords_expandMatricesFor (A := fun w => w ∈ controlWords s ∨ w ∈ matrixWords)
      (fun w hw => .inr hw) maxMatrixRounds (fun w hw => .inl (hstrip hw)) w hw
    exact hallowed.imp_right fun hmem => .inr ⟨hmem, hsame⟩

/--
No tokens are fused as long as no deletion joins any: every control word of the normal form is one of the source,
or a plain fraction in the place of one of a fixed style, or stands around an expanded matrix.
-/
theorem controlWords_normalize (h : Separated s) : ∀ w ∈ controlWords (normalize s), MayStand s w := by
  have hfrac : ∀ word ∈ fractionWords, MayStand s word → MayStand s "frac" := by
    intro word hword hstands
    have hother : ∀ word ∈ fractionWords, word ≠ "frac" ∧ word ∉ matrixWords := by decide
    rcases hstands with hmem | ⟨heq, -⟩ | ⟨hmem, -⟩
    · exact .inr (.inl ⟨rfl, word, hword, hmem⟩)
    · exact absurd heq (hother word hword).1
    · exact absurd hmem (hother word hword).2
  have hsizes := controlWords_substitute (fits_wordDeletion sizeWords) (advances_wordDeletion _) h.sizes (mayStand_expanded s)
  have hstyles := controlWords_substitute (fits_wordDeletion styleWords) (advances_wordDeletion _) h.styles hsizes
  have hspacing := controlWords_substitute fits_spacingRule advances_spacingRule (fun _ _ => trivial) hstyles
  have hnegative := controlWords_substitute fits_negativeSpaceDeletion advances_negativeSpaceDeletion
    h.negativeSpaces hspacing
  have hfractions := controlWords_substitute (fits_fractionRule hfrac) advances_fractionRule (fun _ _ => trivial) hnegative
  have hgaps := controlWords_substitute fits_gapRule advances_gapRule (fun _ _ => trivial) hfractions
  exact fun w hw => hgaps w (controlWords_trim _ hw)

/-- A matrix behind a size, with a fraction and spaces in it. -/
def sizedMatrix : Text := "\\Bigl(\\alpha\\,\\begin\x7bbmatrix\x7d\\dfrac12&\\!x\\end\x7bbmatrix\x7d\\Bigr)"

theorem controlWords_sizedMatrix : Separated sizedMatrix ∧ ∀ w ∈ controlWords (normalize sizedMatrix), MayStand sizedMatrix w := by
  have h : Separated sizedMatrix := ⟨by decide +kernel, by decide +kernel, by decide +kernel⟩
  exact ⟨h, controlWords_normalize h⟩

/-- A negative space between a Greek letter and a variable. -/
def tightProduct : Text := "\\alpha\\!x"

/-- Without that condition tokens are fused: the Greek letter and the variable become one control word. -/
theorem normalize_fuses_tightProduct : ¬ ∀ s, ∀ w ∈ controlWords (normalize s), MayStand s w := by
  intro hall
  have hfused : ("alphax" : Text) ∈ controlWords (normalize tightProduct) := by
    rw [controlWords_eq]
    decide +kernel
  have hwords : controlWords tightProduct = Text.ofStrings ["alpha"] := by
    rw [controlWords_eq]
    decide +kernel
  rcases hall tightProduct "alphax" hfused with hmem | ⟨heq, -⟩ | ⟨hmem, -⟩
  · rw [hwords] at hmem
    exact absurd hmem (by decide)
  · exact absurd heq (by decide)
  · exact absurd hmem (by decide)

end EquationExport.Latex
