import EquationExport.Equation.Source
import Mathlib.Data.List.Flatten
import Mathlib.Data.List.TakeWhile

/-!
# The first source that can be used

The sources of an equation are tried in turn, and no converter is asked for more than that takes. What follows says
of every source, without a run, which questions it costs and what markup it comes to. A run then has the markup of the
first source that comes to any, and the questions of the sources up to that one, in order and no others.
-/

namespace EquationExport

open Omml

/-! ### Up to the first success -/

/-- The front of a list up to the first item with the property, or all of it. -/
def upToFirst (p : α → Bool) (l : List α) : List α := l.take (l.findIdx p + 1)

theorem upToFirst_cons (p : α → Bool) (a : α) (l : List α) :
    upToFirst p (a :: l) = a :: if p a then [] else upToFirst p l := by
  rw [upToFirst, List.findIdx_cons, List.take_succ_cons]
  cases p a with
  | true => simp
  | false => rfl

theorem upToFirst_sublist (p : α → Bool) (l : List α) : (upToFirst p l).Sublist l := List.take_sublist _ _

/-! ### Questions about one piece of MathML -/

/--
An answer to a question about MathML does not count: there is none, it is blank, or the MathML holds a fraction and
none shows in the answer.
-/
def fallsShort (mathml : Text) : Option Text → Bool
  | none => true
  | some answer => answer.isBlank || (Mathml.hasFraction mathml && !hasFractionMarker answer.trim)

/-- The questions that MathML costs: itself, and itself without fences if it has a fraction and the first answer falls short. -/
def questions (c : Converters) (mathml : Text) : List Text :=
  if Mathml.hasFraction mathml = true ∧ Mathml.stripFenceOperators mathml ≠ mathml ∧
      fallsShort mathml (c.omml mathml) = true then
    [mathml, Mathml.stripFenceOperators mathml]
  else [mathml]

/-- What the answer to one of the questions about MathML comes to. -/
def answerTo? (c : Converters) (mathml question : Text) : Option Text :=
  if fallsShort mathml (c.omml question) then none else (c.omml question).map (·.trim)

/-- What the conversion of MathML comes to. -/
def converted? (c : Converters) (mathml : Text) : Option Text := (questions c mathml).findSome? (answerTo? c mathml)

variable {c : Converters} {e : MathElement} {mathml : Text}

theorem trim_isEmpty (s : Text) : s.trim.isEmpty = s.isBlank := by
  rw [Bool.eq_iff_iff, List.isEmpty_iff, Text.isBlank, List.all_eq_true]
  unfold Text.trim Text.trimEnd Text.trimStart
  rw [List.reverse_eq_nil_iff, List.dropWhile_eq_nil_iff]
  constructor
  · intro h
    -- a front that is not blank would survive
    have hdrop : s.dropWhile (·.isSpace) = [] := by
      cases hs : s.dropWhile (·.isSpace) with
      | nil => rfl
      | cons d rest =>
        have hd := h d (by simp [hs])
        have hnot := List.head?_dropWhile_not (fun d : CodePoint => d.isSpace) s
        rw [hs] at hnot
        simp [hd] at hnot
    exact List.dropWhile_eq_nil_iff.1 hdrop
  · intro h d hd
    rw [List.mem_reverse] at hd
    exact h d ((List.dropWhile_suffix _).subset hd)

theorem usableOmml_eq (c : Converters) (mathml question : Text) :
    usableOmml (Mathml.hasFraction mathml) (c.omml question) = answerTo? c mathml question := by
  unfold answerTo?
  cases c.omml question with
  | none => rfl
  | some answer =>
    unfold usableOmml fallsShort
    dsimp only
    rw [trim_isEmpty]
    rfl

/-- Questions are asked until an answer counts. -/
theorem firstUsable_eq (c : Converters) (mathml : Text) (attempts : List Text) :
    firstUsable c (Mathml.hasFraction mathml) attempts =
      ⟨attempts.findSome? (answerTo? c mathml), (upToFirst (fun q => (answerTo? c mathml q).isSome) attempts).map .omml⟩ := by
  induction attempts with
  | nil => rfl
  | cons question attempts ih =>
    rw [firstUsable, ih, upToFirst_cons, List.findSome?_cons]
    simp only [Bind.bind, Converters.askOmml, usableOmml_eq]
    cases answerTo? c mathml question <;> rfl

theorem upToFirst_conversionAttempts (c : Converters) (mathml : Text) :
    upToFirst (fun q => (answerTo? c mathml q).isSome) (conversionAttempts mathml) = questions c mathml := by
  have hsome : (answerTo? c mathml mathml).isSome = !fallsShort mathml (c.omml mathml) := by
    unfold answerTo?
    cases hanswer : c.omml mathml with
    | none => rfl
    | some answer => cases fallsShort mathml (some answer) <;> rfl
  unfold conversionAttempts questions
  dsimp only
  split
  · next hretry =>
    obtain ⟨hfraction, hchanged⟩ := Bool.and_eq_true_iff.1 hretry
    have hne : Mathml.stripFenceOperators mathml ≠ mathml := by simpa using hchanged
    rw [upToFirst_cons, upToFirst_cons, hsome]
    cases hshort : fallsShort mathml (c.omml mathml) <;> simp [hfraction, hne, upToFirst]
  · next hretry =>
    have hnot : ¬ (Mathml.hasFraction mathml = true ∧ Mathml.stripFenceOperators mathml ≠ mathml ∧
        fallsShort mathml (c.omml mathml) = true) := by
      rintro ⟨hfraction, hne, -⟩
      exact hretry (by simp [hfraction, hne])
    rw [if_neg hnot, upToFirst_cons]
    simp [upToFirst]

theorem findSome?_upToFirst (f : α → Option β) (l : List α) :
    (upToFirst (fun a => (f a).isSome) l).findSome? f = l.findSome? f := by
  induction l with
  | nil => rfl
  | cons a l ih =>
    rw [upToFirst_cons, List.findSome?_cons, List.findSome?_cons]
    cases f a with
    | none => exact ih
    | some b => rfl

/-- A conversion asks the questions that the MathML costs, and comes to the first answer that counts. -/
theorem convertMathml_eq (c : Converters) (mathml : Text) :
    (convertMathml c mathml).value.toOption = converted? c mathml ∧
      (convertMathml c mathml).calls = (questions c mathml).map .omml := by
  have hvalue : (conversionAttempts mathml).findSome? (answerTo? c mathml) = converted? c mathml := by
    rw [converted?, ← upToFirst_conversionAttempts, findSome?_upToFirst]
  simp only [convertMathml, Bind.bind, firstUsable_eq, upToFirst_conversionAttempts, hvalue]
  cases converted? c mathml <;> simp [Except.toOption]

/-- Where a conversion comes to something, the last question is the one whose answer it is. -/
theorem exists_question_of_converted? {raw : Text} (h : converted? c mathml = some raw) :
    ∃ earlier question answer, questions c mathml = earlier ++ [question] ∧ c.omml question = some answer ∧
      raw = answer.trim := by
  have hanswer : ∀ question, answerTo? c mathml question = some raw → ∃ answer, c.omml question = some answer ∧
      raw = answer.trim := by
    intro question hquestion
    unfold answerTo? at hquestion
    split at hquestion
    · cases hquestion
    · obtain ⟨answer, homml, rfl⟩ := Option.map_eq_some_iff.1 hquestion
      exact ⟨answer, homml, rfl⟩
  unfold converted? questions at h
  unfold questions
  split at h
  · next hretry =>
    have hfirst : answerTo? c mathml mathml = none := if_pos hretry.2.2
    rw [List.findSome?_cons, hfirst] at h
    obtain ⟨answer, homml, hraw⟩ := hanswer (Mathml.stripFenceOperators mathml) (by simpa using h)
    exact ⟨[mathml], _, answer, by rw [if_pos hretry]; rfl, homml, hraw⟩
  · next hretry =>
    obtain ⟨answer, homml, hraw⟩ := hanswer mathml (by simpa using h)
    exact ⟨[], _, answer, by rw [if_neg hretry]; rfl, homml, hraw⟩

namespace MathElement

/-! ### What a source costs and what it comes to -/

/-- The first `math` element that LaTeX is rendered to; nothing if the rendering fails or has none. -/
def rendered? (c : Converters) (latex : Text) (display : Bool) : Option Text :=
  (Text.breakAt? mathBlock? ((c.mathml (Latex.normalize latex) display).getD [])).map fun (_, block, _) => block

/-- The MathML of a source. -/
def mathmlOf? (c : Converters) (e : MathElement) : Source → Option Text
  | .embedded => nonempty? e.mathml
  | .regenerated => (nonempty? e.latex).bind fun latex => nonempty? (rendered? c latex e.display)

/-- The markup that a source comes to: its MathML, cleaned, converted and repaired. -/
def markupOf? (c : Converters) (e : MathElement) (source : Source) : Option Text :=
  ((e.mathmlOf? c source).bind fun mathml => converted? c (Mathml.clean mathml)).bind (repairOmml · [])

/-- The question that a source costs before there is any MathML. -/
def renderingCalls (e : MathElement) : Source → List Call
  | .embedded => []
  | .regenerated => (nonempty? e.latex).toList.map fun latex => .mathml (Latex.normalize latex) e.display

/-- All questions that a source costs. -/
def callsFor (c : Converters) (e : MathElement) (source : Source) : List Call :=
  e.renderingCalls source ++
    (e.mathmlOf? c source).toList.flatMap fun mathml => (questions c (Mathml.clean mathml)).map .omml

theorem candidate_eq (c : Converters) (e : MathElement) (source : Source) :
    e.candidate c source = ⟨e.mathmlOf? c source, e.renderingCalls source⟩ := by
  cases source with
  | embedded => rfl
  | regenerated =>
    unfold candidate mathmlOf? renderingCalls
    cases nonempty? e.latex <;> rfl

/-- One source after the other is asked for, up to the first that comes to markup. -/
theorem buildFrom_eq (c : Converters) (e : MathElement) (sources : List Source) :
    buildFrom c e sources = ⟨sources.findSome? (e.markupOf? c),
      (upToFirst (fun source => (e.markupOf? c source).isSome) sources).flatMap (e.callsFor c)⟩ := by
  induction sources with
  | nil => rfl
  | cons source sources ih =>
    rw [buildFrom, ih, candidate_eq, upToFirst_cons, List.findSome?_cons, List.flatMap_cons]
    cases hmathml : e.mathmlOf? c source with
    | none => simp [Bind.bind, callsFor, markupOf?, hmathml]
    | some mathml =>
      obtain ⟨hvalue, hcalls⟩ := convertMathml_eq c (Mathml.clean mathml)
      have homml : ommlOf c mathml = ⟨(converted? c (Mathml.clean mathml)).bind (repairOmml · []),
          (questions c (Mathml.clean mathml)).map .omml⟩ := by
        simp only [ommlOf, Bind.bind, hcalls, ← hvalue]
        cases (convertMathml c (Mathml.clean mathml)).value <;> simp [Except.toOption]
      have hmarkup : e.markupOf? c source = (converted? c (Mathml.clean mathml)).bind (repairOmml · []) := by
        rw [markupOf?, hmathml, Option.bind_some]
      simp only [Bind.bind, homml, hmarkup, callsFor, hmathml]
      cases (converted? c (Mathml.clean mathml)).bind (repairOmml · []) <;> simp

/-! ### The run -/

/-- The sources that are looked at: those up to the first that comes to markup. -/
def reached (c : Converters) (e : MathElement) : List Source :=
  upToFirst (fun source => (e.markupOf? c source).isSome) e.sources

/-- A question for MathML. -/
def asksMathml : Call → Bool
  | .mathml .. => true
  | .omml _ => false

theorem countP_asksMathml_callsFor (c : Converters) (e : MathElement) (source : Source) :
    (e.callsFor c source).countP asksMathml = (e.renderingCalls source).length := by
  have homml : ∀ qs : List Text, (qs.map Call.omml).countP asksMathml = 0 := fun qs =>
    List.countP_eq_zero.2 (by simp [asksMathml])
  have hrendering : (e.renderingCalls source).countP asksMathml = (e.renderingCalls source).length := by
    cases source with
    | embedded => rfl
    | regenerated => cases h : nonempty? e.latex <;> simp [renderingCalls, h, asksMathml]
  rw [callsFor, List.countP_append, hrendering]
  cases e.mathmlOf? c source with
  | none => rfl
  | some mathml => simp [homml]

/-- LaTeX is rendered once at most, whichever sources are looked at. -/
theorem countP_asksMathml_le (c : Converters) (e : MathElement) {asked : List Source} (h : asked.Sublist e.sources) :
    (asked.flatMap (e.callsFor c)).countP asksMathml ≤ 1 := by
  have hone : (e.renderingCalls .regenerated).length ≤ 1 := by
    cases hlatex : nonempty? e.latex <;> simp [renderingCalls, hlatex]
  have hall : (e.sources.flatMap (e.callsFor c)).countP asksMathml = (e.renderingCalls .regenerated).length := by
    have hnone : (e.renderingCalls .embedded).length = 0 := rfl
    unfold sources
    split <;> simp [countP_asksMathml_callsFor, hnone]
  exact (h.flatMap (e.callsFor c)).countP_le.trans (hall.trans_le hone)

/-- Where a source comes to markup, the last question that it costs is the one that the markup is made from. -/
theorem exists_question_of_markupOf? {source : Source} {omml : Text} (h : e.markupOf? c source = some omml) :
    ∃ earlier question answer, e.callsFor c source = earlier ++ [.omml question] ∧ c.omml question = some answer ∧
      repairOmml answer.trim [] = some omml := by
  obtain ⟨raw, hraw, hrepair⟩ := Option.bind_eq_some_iff.1 h
  obtain ⟨mathml, hmathml, hconverted⟩ := Option.bind_eq_some_iff.1 hraw
  obtain ⟨earlier, question, answer, hquestions, homml, rfl⟩ := exists_question_of_converted? hconverted
  refine ⟨e.renderingCalls source ++ earlier.map .omml, question, answer, ?_, homml, hrepair⟩
  rw [callsFor, hmathml]
  simp [hquestions]

theorem exists_upToFirst_eq {f : α → Option β} {l : List α} {b : β} (h : l.findSome? f = some b) :
    ∃ front a, upToFirst (fun a => (f a).isSome) l = front ++ [a] ∧ f a = some b := by
  induction l with
  | nil => cases h
  | cons a l ih =>
    rw [upToFirst_cons]
    cases ha : f a with
    | none =>
      rw [List.findSome?_cons, ha] at h
      obtain ⟨front, a', hl, ha'⟩ := ih h
      exact ⟨a :: front, a', by simp [hl], ha'⟩
    | some b' =>
      rw [List.findSome?_cons, ha] at h
      exact ⟨[], a, by simp, ha.trans h⟩

/--
Matrices are made from the LaTeX first, other equations from the embedded MathML. The markup is what the first source
that comes to any comes to, and there is none if no source does. The questions are those of the sources up to that one;
LaTeX is rendered once at most, and only if its turn comes. The question that the markup is made from is the last.
-/
theorem build_first_usable (c : Converters) (e : MathElement) :
    e.sources = (if Latex.hasMatrixEnvironment (e.latex.getD []) then [.regenerated, .embedded]
      else [.embedded, .regenerated]) ∧
    (e.build c).value = e.sources.findSome? (e.markupOf? c) ∧
    (e.build c).calls = (e.reached c).flatMap (e.callsFor c) ∧
    (e.build c).calls.countP asksMathml ≤ 1 ∧
    ((e.build c).calls.any asksMathml = true → .regenerated ∈ e.reached c) ∧
    ∀ omml, (e.build c).value = some omml → ∃ earlier question answer,
      (e.build c).calls = earlier ++ [.omml question] ∧ c.omml question = some answer ∧
        repairOmml answer.trim [] = some omml := by
  have hrun : e.build c = ⟨e.sources.findSome? (e.markupOf? c), (e.reached c).flatMap (e.callsFor c)⟩ :=
    buildFrom_eq c e e.sources
  rw [hrun]
  refine ⟨rfl, rfl, rfl, countP_asksMathml_le c e (upToFirst_sublist _ _), fun hasks => ?_, fun omml hvalue => ?_⟩
  · obtain ⟨call, hcall, hmathml⟩ := List.any_eq_true.1 hasks
    obtain ⟨source, hsource, hmem⟩ := List.mem_flatMap.1 hcall
    cases source with
    | regenerated => exact hsource
    | embedded =>
      have hzero := countP_asksMathml_callsFor c e .embedded
      exact absurd hmathml (List.countP_eq_zero.1 hzero call hmem)
  · obtain ⟨front, source, hreached, hmarkup⟩ := exists_upToFirst_eq hvalue
    obtain ⟨earlier, question, answer, hcalls, homml, hrepair⟩ := exists_question_of_markupOf? hmarkup
    refine ⟨front.flatMap (e.callsFor c) ++ earlier, question, answer, ?_, homml, hrepair⟩
    rw [reached, hreached, List.flatMap_append, List.flatMap_singleton, hcalls, List.append_assoc]

end MathElement

end EquationExport
