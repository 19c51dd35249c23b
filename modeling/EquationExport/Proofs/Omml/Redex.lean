import EquationExport.Proofs.Omml.Nary
import EquationExport.Proofs.Omml.Span
import EquationExport.Proofs.Text.Occurrence
import Mathlib.Data.List.Forall2

/-!
# What is built in the place of spans

The objects of a span and the construct that is built from them are read alike: delimiters move from runs into
properties, an integral sign and its limits from runs into an operator, and a flattened fraction gets its bar.
The runs among the objects are those that the rule has found; the other objects may have been repaired inside.
-/

namespace EquationExport.Omml

open Xml Xml.Node Repair

variable {parent : Text}

/-! ### Objects of a span -/

/-- No properties of the element are read. -/
def IsSilent (parent : Text) : Prop := parent ≠ "nary" ∧ parent ≠ "d"

instance (parent : Text) : Decidable (IsSilent parent) := inferInstanceAs (Decidable (_ ∧ _))

/-- Objects that stand somewhere may stand in a slot. -/
theorem Within.fillsSlot {l : List Node} (h : Within false parent l) (hobject : ∃ n ∈ l, IsObject (label n)) :
    FillsSlot l := by
  obtain ⟨n, hn, hobject⟩ := hobject
  obtain ⟨front, rest, haccepts⟩ := h.accepts
  have hmem : label n ∈ front ++ labels l ++ rest := by
    simp only [List.mem_append]
    exact .inl (.inr (List.mem_map_of_mem hn))
  have htext := ((accepts_other (kindOf_eq_other haccepts hmem hobject)).1 haccepts).1
  simp only [List.mem_append, not_or] at htext
  exact ⟨h.proper, htext.1.2⟩

/-- A change of objects that are read into others, where no properties are read. -/
theorem Kept.of_run {old new : List Node} (hparent : IsSilent parent) (hrun : ∃ n ∈ old, n.isRun = true)
    (h : FillsSlot old → FillsSlot new ∧ Text.legible (readings new) = Text.legible (readings old)) :
    Kept false parent old new := by
  obtain ⟨run, hmem, hrun⟩ := hrun
  have hobject : ∃ n ∈ old, IsObject (label n) := ⟨run, hmem, by rw [label_of_isRun hrun]; decide⟩
  intro hwithin
  obtain ⟨⟨hproper, htext⟩, hreading⟩ := h (hwithin.fillsSlot hobject)
  refine Kept.of_object hobject (fun hbare => ?_) htext (fun group hgroup => ?_) (fun _ => ⟨hproper, hreading⟩) hwithin
  · exact not_bare_of_isNamed hrun (by decide) (hbare.of_mem hmem)
  · rcases hgroup with ⟨hnary, -⟩ | ⟨hd, -⟩
    · exact absurd hnary hparent.1
    · exact absurd hd hparent.2

/-- No surrogate stands in the text of a run. -/
theorem hasSurrogate_runText {node : Node} (h : AllProper false [node]) :
    Text.hasSurrogate (node.runText?.getD []) = false := by
  unfold runText?
  split
  · rw [Text.hasSurrogate_eq_false_iff]
    intro c hc
    rw [Option.getD_some] at hc
    obtain ⟨t, ht, hc⟩ := List.mem_flatMap.1 hc
    have hsound := (h t (by simpa using (List.mem_filter.1 ht).1)).sound
    exact Text.hasSurrogate_eq_false_iff.1 hsound c hc
  · rfl

theorem hasSurrogate_trim {s : Text} (h : s.hasSurrogate = false) : s.trim.hasSurrogate = false := by
  rw [Text.hasSurrogate_eq_false_iff] at h ⊢
  exact fun c hc => h c ((Text.trim_isInfix s).subset hc)

theorem hasSurrogate_glyphs {node : Node} (h : AllProper false [node]) : node.glyphs.hasSurrogate = false :=
  hasSurrogate_trim (hasSurrogate_runText h)

theorem length_of_isGlyphOf {glyphs t : Text} (h : isGlyphOf glyphs t = true) : t.length = 1 := by
  unfold isGlyphOf at h
  split at h
  · rfl
  · cases h

theorem ne_undefined_of_length {t : Text} (h : t.length ≤ 1) : t ≠ "undefined" := by
  rintro rfl
  exact absurd h (by decide)

/-! ### Delimiters -/

/-- A run with the closing delimiter, or no run and no delimiter. -/
def ClosedBy (closers : List Node) (close : Text) : Prop :=
  (closers = [] ∧ close = []) ∨ ∃ last, closers = [last] ∧ last.glyphs = close ∧ close.length = 1

theorem Kept.delimiter {opening : Node} {closers : List Node} {close : Text} (content : List Node)
    (hparent : IsSilent parent) (hopening : opening.glyphs.length = 1) (hclosers : ClosedBy closers close) :
    Kept false parent (opening :: (content ++ closers)) [delimiter opening.glyphs close content] := by
  have hne : opening.glyphs ≠ [] := by
    intro h
    simp [h] at hopening
  refine Kept.of_run hparent ⟨opening, by simp, isRun_of_glyphs hne⟩ fun hfills => ?_
  obtain ⟨hfirst, hrest⟩ := (fillsSlot_append (a := [opening])).1 hfills
  obtain ⟨hcontent, hlast⟩ := fillsSlot_append.1 hrest
  have hclose : close ≠ "undefined" ∧ Text.legible close = Text.legible (readings closers) := by
    rcases hclosers with ⟨rfl, rfl⟩ | ⟨last, rfl, rfl, hlength⟩
    · exact ⟨by decide, rfl⟩
    · have hnil : last.glyphs ≠ [] := by
        intro h
        simp [h] at hlength
      refine ⟨ne_undefined_of_length (by omega), ?_⟩
      rw [readings_cons, readings_nil, List.append_nil, legible_glyphs hlast.proper hnil]
  refine ⟨fillsSlot_delimiter (ne_undefined_of_length (by omega)) hclose.1 hcontent, ?_⟩
  simp only [readings_cons, readings_nil, List.append_nil, readings_append, reading_delimiter, Text.legible_append,
    legible_glyphs hfirst.proper hne, hclose.2, List.append_assoc]

/-! ### Integrals -/

/-- Limits that are made from objects fill a slot and are read as those objects. -/
theorem fillsSlot_limits {limits : List Node} (hlimits : IsLimit limits) (h : FillsSlot limits) :
    FillsSlot (limits.map limitOf) ∧ Text.legible (readings (limits.map limitOf)) = Text.legible (readings limits) := by
  rcases hlimits with rfl | ⟨node, rfl, hne⟩
  · exact ⟨fillsSlot_nil, rfl⟩
  · refine ⟨fillsSlot_run areRunProperties_none (hasSurrogate_glyphs h.proper), ?_⟩
    rw [List.map_singleton, readings_cons, readings_cons, readings_nil, List.append_nil, List.append_nil, limitOf,
      plainRun, reading_run areRunProperties_none, legible_glyphs h.proper hne]

theorem Kept.integral {sign : Node} {lower upper : List Node} (hparent : IsSilent parent)
    (hsign : isGlyphOf integralGlyphs sign.glyphs = true) (hlower : IsLimit lower) (hupper : IsLimit upper) :
    Kept false parent (sign :: (lower ++ upper))
      [Omml.nary sign.glyphs (lower.map limitOf) (upper.map limitOf) [] (some underOver)] := by
  have hlength := length_of_isGlyphOf hsign
  have hne : sign.glyphs ≠ [] := by
    intro h
    simp [h] at hlength
  refine Kept.of_run hparent ⟨sign, by simp, isRun_of_glyphs hne⟩ fun hfills => ?_
  obtain ⟨hfirst, hrest⟩ := (fillsSlot_append (a := [sign])).1 hfills
  obtain ⟨hlow, hup⟩ := fillsSlot_append.1 hrest
  obtain ⟨hlow, hlowread⟩ := fillsSlot_limits hlower hlow
  obtain ⟨hup, hupread⟩ := fillsSlot_limits hupper hup
  obtain ⟨hnary, hread⟩ := fillsSlot_nary hne (ne_undefined_of_length (by omega)) hlow hup fillsSlot_nil
  refine ⟨hnary, ?_⟩
  rw [hread]
  simp only [readings_cons, readings_nil, readings_append, Text.legible_append, List.append_nil,
    legible_glyphs hfirst.proper hne, hlowread, hupread]

/-! ### Fractions -/

theorem Kept.fraction (num den : List Node) (hparent : IsSilent parent) (hrun : ∃ n ∈ num ++ den, n.isRun = true) :
    Kept false parent (num ++ den) [Omml.fraction num den] := by
  refine Kept.of_run hparent hrun fun hfills => ?_
  obtain ⟨hnum, hden⟩ := fillsSlot_append.1 hfills
  refine ⟨fillsSlot_fraction hnum hden, ?_⟩
  rw [readings_cons, readings_nil, List.append_nil, reading_fraction, readings_append]

end EquationExport.Omml
