import EquationExport.Proofs.Omml.FractionMarker
import EquationExport.Proofs.Omml.Lasting
import EquationExport.Proofs.Xml.Insertion

/-!
# Notes in a fragment

A repair that strips what is no equation markup begins with that, and it asks before only for fractions. So it does not
see the comments and processing instructions of a fragment, *notes* for short. Whether a note in the written fragment
leaves the repaired one as it was is therefore a question of reading: it does at every place where nothing is read but
the note.

It does not where text follows. That text is read as the tail of the note and stripped with it, so the rest of what an
element says is lost behind a note. And blank text that is all an element holds counts as layout once a note stands
behind it.
-/

namespace EquationExport.Omml

open Xml Xml.Node Repair

variable {f : Fragment} {l : List Node} {skip : List Text}

/-! ### What a repair sees -/

theorem tagsOf_withoutNotes (l : List Node) : tagsOf (withoutNotes l) = tagsOf l := by
  induction l using forest_induction with
  | nil => rfl
  | element tag text children tail rest ihc ihr =>
    rw [withoutNotes_element, tagsOf_cons, tagsOf_cons (element tag text children tail), tagsOf_element, tagsOf_element, ihc, ihr]
  | comment content tail rest ih | instruction target content tail rest ih =>
    rw [withoutNotes_note rfl, tagsOf_cons, ih]
    rfl

theorem hasTopFractions_withoutNotes (l : List Node) : ∀ top, hasTopFractions top (withoutNotes l) = hasTopFractions top l ∧
    hasTopFractionInBox top (withoutNotes l) = hasTopFractionInBox top l := by
  induction l using forest_induction with
  | nil => exact fun top => ⟨rfl, rfl⟩
  | element tag text children tail rest ihc ihr =>
    intro top
    have hinside : ∀ top, hasTopFraction top (element tag text (withoutNotes children) tail) =
        hasTopFraction top (element tag text children tail) := by
      intro top
      rw [hasTopFraction, hasTopFraction, (ihc top).2, (ihc _).1]
      rfl
    rw [withoutNotes_element, hasTopFractions, hasTopFractions, hasTopFractionInBox, hasTopFractionInBox, hinside, hinside,
      (ihr top).1, (ihr top).2, (ihc top).1]
    exact ⟨rfl, rfl⟩
  | comment content tail rest ih | instruction target content tail rest ih =>
    intro top
    rw [withoutNotes_note rfl]
    exact ih top

/-- Notes are foreign. -/
theorem pruneAll_withoutNotes (l : List Node) : ∀ parent,
    pruneAll (fun _ n => n.isMath) parent (withoutNotes l) = pruneAll (fun _ n => n.isMath) parent l := by
  induction l using forest_induction with
  | nil => exact fun _ => rfl
  | element tag text children tail rest ihc ihr =>
    intro parent
    have hsame : (element tag text (withoutNotes children) tail).isMath = (element tag text children tail).isMath := rfl
    rw [withoutNotes_element, pruneAll, pruneAll, hsame, ihr, Node.prune, Node.prune, ihc]
  | comment content tail rest ih | instruction target content tail rest ih =>
    intro parent
    rw [withoutNotes_note rfl]
    exact ih parent

/-- The fragment without its notes, and without the text behind each of them. -/
def Fragment.withoutNotes (f : Fragment) : Fragment := { f with children := Xml.withoutNotes f.children }

theorem stripForeign_withoutNotes (f : Fragment) : stripForeign f.withoutNotes = stripForeign f :=
  congrArg (Fragment.mk f.text) (pruneAll_withoutNotes f.children none)

theorem hasFraction_withoutNotes (f : Fragment) : f.withoutNotes.hasFraction = f.hasFraction := by
  rw [Bool.eq_iff_iff, Fragment.hasFraction_iff, Fragment.hasFraction_iff]
  show (∃ tag ∈ tagsOf (Xml.withoutNotes f.children), _) ↔ _
  rw [tagsOf_withoutNotes]

theorem repairState_withoutNotes (f : Fragment) : f.withoutNotes.repairState = f.repairState :=
  congrArg (RepairState.mk · false) (hasTopFractions_withoutNotes f.children true).1

theorem applyRules_stripForeign (rules : List RepairRule) (f : Fragment) : f.applyRules (.stripForeign :: rules) =
    (rules.foldl (fun (f, state) rule => rule.apply state f) (stripForeign f, f.repairState)).1 := rfl

/-- A repair that strips foreign elements does not see notes. -/
theorem repair_withoutNotes (hskip : skip.contains RepairRule.stripForeign.name = false) (f : Fragment) :
    f.withoutNotes.repair skip = f.repair skip := by
  have happly : ∀ rules : List RepairRule,
      f.withoutNotes.applyRules (.stripForeign :: rules) = f.applyRules (.stripForeign :: rules) := by
    intro rules
    rw [applyRules_stripForeign, applyRules_stripForeign, stripForeign_withoutNotes, repairState_withoutNotes]
  have hpromotion : ∀ rules : List RepairRule, (RepairRule.stripForeign :: rules).filter (· != .promoteDelimiters) =
      .stripForeign :: rules.filter (· != .promoteDelimiters) := fun _ => rfl
  rw [Fragment.repair, Fragment.repair, RepairRule.filter_all (by rw [hskip]; rfl), happly, hasFraction_withoutNotes,
    hpromotion, happly]

/-! ### Notes in the written fragment -/

/--
A comment or a processing instruction in a quiet place of a fragment goes unseen: the fragment is repaired with it, and
the result is the same. `before` is what has been read of the fragment there, `left` and `right` are the white space around
the note, and a declaration of XML may stand in front of all that.
-/
theorem repairOmml_note {omml noted before left right note behind : Text} {r : Reader}
    (hskip : skip.contains RepairRule.stripForeign.name = false) (hparse : (Fragment.parse? omml).isSome = true)
    (hnote : isNoteText note = true) (homml : dropXmlDeclaration omml = before ++ (left ++ (right ++ behind)))
    (hnoted : dropXmlDeclaration noted = before ++ (left ++ (note ++ (right ++ behind))))
    (hsteps : Reader.Steps Fragment.reader (before ++ (left ++ (right ++ behind))) r (left ++ (right ++ behind)))
    (hquiet : r.innermost.isQuiet (left ++ right) behind = true) :
    ∃ result, repairOmml omml skip = some result ∧ repairOmml noted skip = some result := by
  obtain ⟨f, hf⟩ := Option.isSome_iff_exists.1 hparse
  obtain ⟨⟨text, children⟩, hread, rfl⟩ := Option.map_eq_some_iff.1 hf
  rw [homml] at hread
  obtain ⟨children', hread', hsame⟩ := readContent?_note hnote hread hsteps hquiet
  have hf' : Fragment.parse? noted = some ⟨text, children'⟩ := by
    rw [Fragment.parse?, hnoted, hread']
    rfl
  have hwithout : Fragment.withoutNotes ⟨text, children'⟩ = Fragment.withoutNotes ⟨text, children⟩ :=
    congrArg (Fragment.mk text) hsame
  refine ⟨((⟨text, children⟩ : Fragment).repair skip).write, by rw [repairOmml, hf]; rfl, ?_⟩
  rw [repairOmml, hf', Option.map_some, ← repair_withoutNotes hskip, hwithout, repair_withoutNotes hskip]

/-- An instruction between a tag and a line end goes unseen. -/
theorem repairOmml_note_hintedRun :
    ∃ result, repairOmml "<m:r>\n<m:t>a</m:t></m:r>" [] = some result ∧
      repairOmml "<m:r><?hint upright?>\n<m:t>a</m:t></m:r>" [] = some result := by
  let front : Text := "<m:r>"
  let blanks : Text := "\n"
  let note : Text := "<?hint upright?>"
  let behind : Text := "<m:t>a</m:t></m:r>"
  have hread : (Fragment.reader.step? (front ++ ([] ++ (blanks ++ behind)))).any (fun found =>
      decide (found.2 = [] ++ (blanks ++ behind)) && found.1.innermost.isQuiet ([] ++ blanks) behind) = true := by
    decide +kernel
  obtain ⟨⟨r, rest⟩, hstep, hplace⟩ := (Option.any_eq_true _ _).1 hread
  obtain ⟨hrest, hquiet⟩ := Bool.and_eq_true_iff.1 hplace
  obtain rfl : rest = [] ++ (blanks ++ behind) := of_decide_eq_true hrest
  have homml : dropXmlDeclaration "<m:r>\n<m:t>a</m:t></m:r>" = front ++ ([] ++ (blanks ++ behind)) := by decide +kernel
  have hnoted : dropXmlDeclaration "<m:r><?hint upright?>\n<m:t>a</m:t></m:r>" =
      front ++ ([] ++ (note ++ (blanks ++ behind))) := by decide +kernel
  exact repairOmml_note rfl (by decide +kernel) (by decide +kernel) homml hnoted (.one hstep (by decide)) hquiet

/-- A comment in a text takes away the rest of the text. -/
theorem repairOmml_dividedText :
    repairOmml "<m:r><m:t>ab</m:t></m:r>" [] = some "<m:r><m:t>ab</m:t></m:r>" ∧
      repairOmml "<m:r><m:t>a<!--c-->b</m:t></m:r>" [] = some "<m:r><m:t>a</m:t></m:r>" := by
  decide +kernel

end EquationExport.Omml
