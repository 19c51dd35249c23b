import EquationExport.Proofs.Splice.DocumentTag
import EquationExport.Proofs.Splice.Place
import EquationExport.Xml.Token

/-!
# Splicing in portions

A list of equations can be spliced in portions: what the first portion leaves is a document in which the namespace
is declared already, at the same tag, so splicing the second portion into it goes on where the first stopped. The
invariant is that the tag stands in front of all runs; a run that is cut out begins behind it.

A token that occurs nowhere changes nothing beyond the declaration. Neither does a token outside every run, unless the
last tag of a run in front of it closes itself: that tag is taken for the opening of a run, and what is cut out
for the token reaches from the empty run to the end of the next one.
-/

namespace EquationExport.Splice

open EquationExport.Text

variable {document before attributes rest : Text} {item : Replacement}

/-! ### Documents that declare the namespace -/

/-- The namespace of equations is declared at the document tag, and the tag ends before the first run. -/
def Declared (document : Text) : Prop :=
  ∃ before attributes rest, Tagged document before attributes rest ∧ DeclaresMath attributes ∧
    ¬ ("<w:r" : Text) <:+: before ++ (("<w:document" : Text) ++ attributes)

theorem Declared.declareMathNamespace_eq (h : Declared document) : declareMathNamespace document = document := by
  obtain ⟨before, attributes, rest, htag, hdeclares, -⟩ := h
  exact declareMathNamespace_of_declares htag hdeclares

/-- A document with a tag in front of its runs declares the namespace once it is declared there. -/
theorem TagComesFirst.declared (h : TagComesFirst document) (htag : Tagged document before attributes rest) :
    Declared (declareMathNamespace document) := by
  obtain ⟨attributes', htag', hdeclares, hattributes⟩ := htag.declare
  refine ⟨before, attributes', rest, htag', hdeclares, fun hin => h.not_infix htag ?_⟩
  rcases hattributes with rfl | rfl
  · exact hin
  · rw [← List.append_assoc, ← List.append_assoc] at hin
    rw [← List.append_assoc]
    exact infix_of_infix_add (by decide) (c := CodePoint.ofChar '<') (by decide) angle_not_mem_mathDeclaration hin

/-- Where a run opens, the document tag is over. -/
theorem OpensRunAt.behind {tag : Text} {i : Nat} (h : OpensRunAt (tag ++ CodePoint.ofChar '>' :: rest) i)
    (htag : ¬ ("<w:r" : Text) <:+: tag) : ∃ k, i = tag.length + 1 + k := by
  have hname : StandsAt (tag ++ CodePoint.ofChar '>' :: rest) i "<w:r" :=
    h.elim (fun ho => List.IsPrefix.trans (by decide) ho) fun ho => List.IsPrefix.trans (by decide) ho
  obtain ⟨k, hk, -⟩ := (standsAt_behind (by decide) htag).1 hname
  exact ⟨k, hk⟩

/-- Splicing one equation keeps the document tag. -/
theorem Declared.spliceOne {next : Text} (h : Declared document) (hnext : spliceOne document item = .ok next) :
    Declared next := by
  rcases spliceOne_cases document item with ⟨hsame, -⟩ | ⟨start, stop, ⟨index, -, hrun⟩, hcut⟩
  · obtain rfl := Except.ok.inj (hsame.symm.trans hnext)
    exact h
  · obtain rfl := Except.ok.inj (hcut.symm.trans hnext)
    obtain ⟨before, attributes, rest, htag, hdeclares, hfirst⟩ := h
    obtain ⟨k, rfl⟩ := OpensRunAt.behind (htag.eq ▸ hrun.opens) hfirst
    have htake : document.take ((before ++ (("<w:document" : Text) ++ attributes)).length + 1 + k) =
        before ++ (("<w:document" : Text) ++ attributes) ++ CodePoint.ofChar '>' :: rest.take k := by
      rw [htag.eq, Nat.add_assoc, List.take_length_add_append, Nat.add_comm 1 k, List.take_succ_cons]
    rw [htake, List.append_assoc, List.append_assoc, List.cons_append]
    exact ⟨before, attributes, _, htag.changeRest _, hdeclares, hfirst⟩

/-- Splicing into a document that declares the namespace is splicing one equation after the other. -/
theorem Declared.spliceAll_eq (h : Declared document) (items : List Replacement) :
    spliceAll document items = items.foldlM Splice.spliceOne document := by
  cases items with
  | nil => rfl
  | cons item items => rw [spliceAll, h.declareMathNamespace_eq]; rfl

/-! ### In portions -/

/-- Splicing a list in two portions: the second is spliced into what the first leaves. -/
theorem exists_spliceAll_append (h : Declared (declareMathNamespace document)) (first second : List Replacement) :
    ∃ middle final, spliceAll document first = .ok middle ∧ spliceAll middle second = .ok final ∧
      spliceAll document (first ++ second) = .ok final := by
  cases first with
  | nil =>
    obtain ⟨final, hfinal⟩ := exists_spliceAll document second
    exact ⟨document, final, rfl, hfinal, hfinal⟩
  | cons item first =>
    obtain ⟨middle, hmiddle, hdeclared⟩ :=
      exists_foldlM_spliceOne (fun _ _ _ hkept hnext => Declared.spliceOne hkept hnext) _ h (item :: first)
    obtain ⟨final, hfinal⟩ := exists_spliceAll middle second
    refine ⟨middle, final, hmiddle, hfinal, ?_⟩
    rw [hdeclared.spliceAll_eq] at hfinal
    rw [← hfinal]
    show List.foldlM Splice.spliceOne (declareMathNamespace document) ((item :: first) ++ second) = _
    rw [List.foldlM_append, hmiddle]
    rfl

/-! ### Tokens outside every run -/

/-- The tag at a position closes itself. -/
def ClosesItself (document : Text) (start : Nat) : Prop :=
  (Xml.openingTag? (document.drop (start + 1))).any (fun found => found.1.closed) = true

instance (document : Text) (start : Nat) : Decidable (ClosesItself document start) :=
  inferInstanceAs (Decidable (_ = true))

/--
A position is inside a run: a run opens in front of it with a tag that does not close itself, and the first end
of a run behind that opening is not in front of the position.
-/
def InsideRun (document : Text) (index : Nat) : Prop :=
  ∃ start, OpensRunAt document start ∧ ¬ ClosesItself document start ∧ start + 4 ≤ index ∧
    ∃ n, FirstAt (document.drop start) n "</w:r>" ∧ index ≤ start + n

theorem not_insideRun {index : Nat} (h : ∀ start, start + 4 ≤ index → OpensRunAt document start → ¬ ClosesItself document start →
    ∃ n, start + n < index ∧ StandsAt (document.drop start) n "</w:r>") : ¬ InsideRun document index := by
  rintro ⟨start, hopens, hopen, hbefore, n, hn, hle⟩
  obtain ⟨k, hk, hstands⟩ := h start hbefore hopens hopen
  exact hn.2 k (by omega) hstands

/-- What is cut out around a position outside every run begins with a tag that closes itself. -/
theorem RunAround.closesItself {index start stop : Nat} (h : RunAround document index start stop)
    (hout : ¬ InsideRun document index) : ClosesItself document start := by
  by_contra hopen
  obtain ⟨n, hn, hle, -⟩ := h.closes
  exact hout ⟨start, h.opens, hopen, h.before, n, hn, hle⟩

/-- Splicing one equation changes a document exactly if something is cut out for its token. -/
theorem spliceOne_eq_self_iff :
    spliceOne document item = .ok document ↔ ∀ start stop, ¬ Cut document item.token start stop := by
  rcases spliceOne_cases document item with ⟨hsame, hno⟩ | ⟨start, stop, hcut, hsplice⟩
  · exact iff_of_true hsame hno
  · refine iff_of_false (fun hsame => ?_) fun hno => hno start stop hcut
    -- markup does not begin as a run does
    obtain ⟨index, -, hrun⟩ := hcut
    obtain ⟨markupRest, hmarkup⟩ := exists_markup_eq item
    have heq : document.take start ++ (markup item ++ document.drop stop) = document.take start ++ document.drop start := by
      rw [List.take_append_drop, ← List.append_assoc]
      exact Except.ok.inj (hsplice.symm.trans hsame)
    have hdrop := List.append_cancel_left heq
    rw [hmarkup, List.append_assoc] at hdrop
    rcases hrun.opens with ⟨t, ht⟩ | ⟨t, ht⟩
    · rw [← ht] at hdrop
      exact absurd (congrArg (·[1]?) hdrop) (by simp [Text.ofString, CodePoint.ofChar])
    · rw [← ht] at hdrop
      exact absurd (congrArg (·[1]?) hdrop) (by simp [Text.ofString, CodePoint.ofChar])

theorem spliceAll_singleton (document : Text) (item : Replacement) :
    spliceAll document [item] = spliceOne (declareMathNamespace document) item := by
  rw [spliceAll, if_neg (by simp), List.foldlM_cons]
  exact bind_pure _

/-- A token that the document does not have is not spliced, even if it is read once the namespace is declared. -/
theorem not_cut_of_not_infix (hfirst : TagComesFirst document) (htag : Tagged document before attributes rest)
    {token : Text} (h : ¬ token <:+: document) (start stop : Nat) :
    ¬ Cut (declareMathNamespace document) token start stop := by
  rintro ⟨index, hindex, hrun⟩
  obtain ⟨attributes', htag', -, hattributes⟩ := htag.declare
  have hnorun : ¬ ("<w:r" : Text) <:+: before ++ (("<w:document" : Text) ++ attributes') := by
    obtain ⟨before', attributes'', rest', htag'', -, hnorun⟩ := hfirst.declared htag
    obtain ⟨rfl, rfl, rfl⟩ := by simpa using (tagged_iff.1 htag').symm.trans (tagged_iff.1 htag'')
    exact hnorun
  obtain ⟨k, rfl⟩ := OpensRunAt.behind (htag'.eq ▸ hrun.opens) hnorun
  have hbefore := hrun.before
  have hstands := htag'.eq ▸ hindex.1
  rw [standsAt_append_right (by omega)] at hstands
  obtain ⟨j, hj⟩ : ∃ j, index - (before ++ (("<w:document" : Text) ++ attributes')).length = j + 1 :=
    ⟨index - (before ++ (("<w:document" : Text) ++ attributes')).length - 1, by omega⟩
  rw [hj, standsAt_cons_succ] at hstands
  refine h ((infix_iff_exists_standsAt.2 ⟨j, hstands⟩).trans ?_)
  rw [htag.eq]
  exact ((List.suffix_cons _ _).trans (List.suffix_append _ _)).isInfix

/--
Splicing into a document whose tag comes before its runs is not refused, and splicing a list at once is splicing its
first portion and then its second. A token that is missing changes nothing but the declaration. So does a token whose
first place is outside every run, exactly if no run that closes itself is taken for the opening of a run around it.
-/
theorem spliceAll_in_portions (htag : Tagged document before attributes rest) (hfirst : TagComesFirst document) :
    (∀ first second : List Replacement, ∃ middle final, spliceAll document first = .ok middle ∧
      spliceAll middle second = .ok final ∧ spliceAll document (first ++ second) = .ok final) ∧
    ∀ item : Replacement,
      (¬ item.token <:+: document → spliceAll document [item] = .ok (declareMathNamespace document)) ∧
      ∀ index, FirstAt (declareMathNamespace document) index item.token →
        ¬ InsideRun (declareMathNamespace document) index →
        (spliceAll document [item] = .ok (declareMathNamespace document) ↔
          ∀ start stop, RunAround (declareMathNamespace document) index start stop →
            ¬ ClosesItself (declareMathNamespace document) start) := by
  refine ⟨exists_spliceAll_append (hfirst.declared htag), fun item => ⟨fun hmissing => ?_, fun index hindex hout => ?_⟩⟩
  · rw [spliceAll_singleton, spliceOne_eq_self_iff]
    exact not_cut_of_not_infix hfirst htag hmissing
  · rw [spliceAll_singleton, spliceOne_eq_self_iff]
    constructor
    · exact fun hno start stop hrun _ => hno start stop ⟨index, hindex, hrun⟩
    · rintro hopen start stop ⟨index', hindex', hrun⟩
      obtain rfl := hindex'.unique hindex
      exact hopen start stop hrun (hrun.closesItself hout)

/-- A token behind the end of a run, and one that is missing. -/
theorem spliceAll_behind_run :
    let document : Text := "<w:document><w:r>A</w:r>B</w:document>"
    let declared := declareMathNamespace document
    Tagged document [] [] "<w:r>A</w:r>B</w:document>" ∧ TagComesFirst document ∧
      FirstAt declared 93 "B" ∧ ¬ InsideRun declared 93 ∧ ¬ ("C" : Text) <:+: document ∧
      spliceAll document [⟨"B", "<m:oMath/>", false⟩] = .ok declared ∧
      spliceAll document [⟨"C", "<m:oMath/>", false⟩] = .ok declared := by
  intro document declared
  have htag : Tagged document [] [] "<w:r>A</w:r>B</w:document>" := tagged_iff.2 (by decide +kernel)
  have hfirst : TagComesFirst document :=
    tagComesFirst_of_breakAt? [] [] _ (tagged_iff.1 htag) (by decide +kernel)
  have hindex : FirstAt declared 93 "B" := by decide +kernel
  have hopening : ∀ start < 93, OpensRunAt declared start → start = 81 := by decide +kernel
  have hopen : ¬ ClosesItself declared 81 := by decide +kernel
  have hend : StandsAt (declared.drop 81) 6 "</w:r>" := by decide +kernel
  have hout : ¬ InsideRun declared 93 := not_insideRun fun start hbefore hopens _ => by
    obtain rfl := hopening start (by omega) hopens
    exact ⟨6, by omega, hend⟩
  have hmissing : ¬ ("C" : Text) <:+: document := by decide +kernel
  have hportions := (spliceAll_in_portions htag hfirst).2
  refine ⟨htag, hfirst, hindex, hout, hmissing, ?_, (hportions ⟨"C", "<m:oMath/>", false⟩).1 hmissing⟩
  refine ((hportions ⟨"B", "<m:oMath/>", false⟩).2 93 hindex hout).2 fun start stop hrun => ?_
  have hbefore := hrun.before
  obtain rfl := hopening start (by omega) hrun.opens
  exact hopen

/-- An empty run with attributes is taken for the opening of a run: the text behind it goes with the next run. -/
theorem spliceAll_behind_empty_run :
    let document : Text := "<w:document><w:r w:rsidR=\"1\"/>__MATH_000001__<w:r><w:t>x</w:t></w:r></w:document>"
    let declared := declareMathNamespace document
    Tagged document [] [] "<w:r w:rsidR=\"1\"/>__MATH_000001__<w:r><w:t>x</w:t></w:r></w:document>" ∧
      TagComesFirst document ∧ FirstAt declared 99 "__MATH_000001__" ∧ ¬ InsideRun declared 99 ∧
      spliceAll document [⟨"__MATH_000001__", "<m:oMath/>", false⟩] ≠ .ok declared := by
  intro document declared
  have htag : Tagged document [] [] "<w:r w:rsidR=\"1\"/>__MATH_000001__<w:r><w:t>x</w:t></w:r></w:document>" :=
    tagged_iff.2 (by decide +kernel)
  have hfirst : TagComesFirst document :=
    tagComesFirst_of_breakAt? [] [] _ (tagged_iff.1 htag) (by decide +kernel)
  have hopening : ∀ start < 99, OpensRunAt declared start → ClosesItself declared start := by decide +kernel
  refine ⟨htag, hfirst, by decide +kernel, not_insideRun fun start hbefore hopens hopen => ?_, by decide +kernel⟩
  exact absurd (hopening start (by omega) hopens) hopen

end EquationExport.Splice
