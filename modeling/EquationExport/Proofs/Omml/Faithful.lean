import EquationExport.Proofs.Omml.Sweeping

/-!
# The rules that sweep

Each of the rules that look for a span is faithful: there is a run in what it finds, and the construct that it
builds is read as the objects in whose place it comes.
-/

namespace EquationExport.Omml

open Xml Xml.Node Repair

variable {parent : Text}

/-! ### Runs that stand for themselves -/

/-- Runs stand for themselves. -/
theorem eq_of_standsFor {old out : List Node} (h : List.Forall₂ StandsFor old out)
    (hruns : ∀ n ∈ old, n.isRun = true) : out = old := by
  induction h with
  | nil => rfl
  | cons hn _ ih =>
    rw [hn (hruns _ (by simp)), ih fun m hm => hruns m (by simp [hm])]

theorem exists_cons_of_standsFor {n : Node} {rest out : List Node} (h : List.Forall₂ StandsFor (n :: rest) out)
    (hn : n.isRun = true) : ∃ rest', out = n :: rest' ∧ List.Forall₂ StandsFor rest rest' := by
  cases h with
  | cons hfirst hrest => exact ⟨_, by rw [hfirst hn], hrest⟩

/-- Objects between two runs that stand for themselves. -/
theorem exists_between_of_standsFor {opening last : Node} {out : List Node} (inner : List Node)
    (h : List.Forall₂ StandsFor (opening :: (inner ++ [last])) out) (hopening : opening.isRun = true)
    (hlast : last.isRun = true) :
    ∃ inner', out = opening :: (inner' ++ [last]) ∧ List.Forall₂ StandsFor inner inner' := by
  obtain ⟨rest, rfl, hrest⟩ := exists_cons_of_standsFor h hopening
  obtain ⟨inner', last', rfl, hinner, hlast'⟩ := exists_append_of_forall₂ hrest
  rw [eq_of_standsFor hlast' (by simpa using hlast)]
  exact ⟨inner', rfl, hinner⟩

theorem interior_cons_append (opening last : Node) (inner : List Node) :
    interior (opening :: (inner ++ [last])) = inner := by
  simp [Repair.interior]

theorem ne_nil_of_length {t : Text} (h : t.length = 1) : t ≠ [] := by
  rintro rfl
  cases h

theorem length_of_closing? {t close : Text} (h : closing? t = some close) : t.length = 1 ∧ close.length = 1 := by
  obtain ⟨pair, hfind, rfl⟩ := Option.map_eq_some_iff.1 h
  have hopening : [pair.1] = t := by simpa using List.find?_some hfind
  rw [← hopening]
  exact ⟨rfl, rfl⟩

/-! ### What is built is no run -/

theorem isRun_delimiter (opening closing : Text) (content : List Node) :
    (delimiter opening closing content).isRun = false := by
  rw [delimiter_eq, isRun, isNamed_mathElement]
  decide

theorem glyphs_delimiter (opening closing : Text) (content : List Node) : (delimiter opening closing content).glyphs = [] := by
  have hrun := isRun_delimiter opening closing content
  by_contra hglyphs
  rw [isRun_of_glyphs hglyphs] at hrun
  cases hrun

theorem isRun_nary (operator : Text) (sub sup base : List Node) (location : Option Text) :
    (Omml.nary operator sub sup base location).isRun = false :=
  isNamed_of_isNamed (isNamed_nary operator sub sup base location) (by decide)

/-! ### The rules -/

theorem faithful_integralSpan : Faithful (integralSpan 0) IsIntegral where
  covers := fun _ _ h => covers_of_integralSpan h
  hasRun := by
    rintro old build ⟨sign, lower, upper, rfl, hsign, -, -, -⟩
    exact ⟨sign, by simp, isRun_of_glyphs (ne_nil_of_length (length_of_isGlyphOf hsign))⟩
  isRun_build := by
    rintro old build objects ⟨sign, lower, upper, -, -, -, -, rfl⟩
    exact isRun_nary _ _ _ _ _
  kept := by
    rintro old build out parent ⟨sign, lower, upper, rfl, hsign, hlower, hupper, rfl⟩ hout hparent
    have hlimit : ∀ limits, IsLimit limits → ∀ n ∈ limits, n.isRun = true := by
      rintro limits (rfl | ⟨node, rfl, hne⟩) n hn
      · cases hn
      · rw [List.mem_singleton.1 hn]
        exact isRun_of_glyphs hne
    have hruns : ∀ n ∈ sign :: (lower ++ upper), n.isRun = true := by
      intro n hn
      rcases List.mem_cons.1 hn with rfl | hn
      · exact isRun_of_glyphs (ne_nil_of_length (length_of_isGlyphOf hsign))
      · rcases List.mem_append.1 hn with hn | hn
        · exact hlimit lower hlower n hn
        · exact hlimit upper hupper n hn
    rw [eq_of_standsFor hout hruns]
    exact Kept.integral hparent hsign hlower hupper

theorem faithful_bracketSpan : Faithful (bracketSpan 0) IsBracketed where
  covers := fun _ _ h => covers_of_bracketSpan h
  hasRun := by
    rintro old build ⟨opening, inner, last, rfl, hopening, -, -⟩
    exact ⟨opening, by simp, isRun_of_glyphs (by rw [hopening]; decide)⟩
  isRun_build := by
    rintro old build objects ⟨opening, inner, last, -, -, -, rfl⟩
    exact isRun_delimiter _ _ _
  kept := by
    rintro old build out parent ⟨opening, inner, last, rfl, hopening, hlast, rfl⟩ hout hparent
    obtain ⟨inner', rfl, -⟩ := exists_between_of_standsFor inner hout (isRun_of_glyphs (by rw [hopening]; decide))
      (isRun_of_glyphs (by rw [hlast]; decide))
    have hkept := Kept.delimiter inner' hparent (by rw [hopening]; decide)
      (.inr ⟨last, rfl, hlast, by decide⟩ : ClosedBy [last] "]")
    rw [hopening] at hkept
    simpa only [interior_cons_append] using hkept

theorem faithful_braceSpan : Faithful (braceSpan 0) IsBraced where
  covers := fun _ _ h => covers_of_braceSpan h
  hasRun := by
    rintro old build (⟨brace, matrix, last, rfl, hbrace, -, -⟩ | ⟨brace, matrix, rfl, hbrace, -⟩)
    · exact ⟨brace, by simp, isRun_of_glyphs (by rw [hbrace]; decide)⟩
    · exact ⟨brace, by simp, isRun_of_glyphs (by rw [hbrace]; decide)⟩
  isRun_build := by
    rintro old build objects (⟨brace, matrix, last, -, -, -, rfl⟩ | ⟨brace, matrix, -, -, rfl⟩)
    · exact isRun_delimiter _ _ _
    · exact isRun_delimiter _ _ _
  kept := by
    rintro old build out parent (⟨brace, matrix, last, rfl, hbrace, hlast, rfl⟩ | ⟨brace, matrix, rfl, hbrace, rfl⟩)
      hout hparent
    · have hrun : brace.isRun = true := isRun_of_glyphs (by rw [hbrace]; decide)
      obtain ⟨inner', rfl, -⟩ := exists_between_of_standsFor [matrix] hout hrun
        (isRun_of_glyphs (by rw [hlast]; decide))
      have hkept := Kept.delimiter inner' hparent (by rw [hbrace]; decide)
        (.inr ⟨last, rfl, hlast, by decide⟩ : ClosedBy [last] "\x7d")
      rw [hbrace] at hkept
      simpa only [interior_cons_append] using hkept
    · obtain ⟨rest, rfl, -⟩ := exists_cons_of_standsFor hout (isRun_of_glyphs (by rw [hbrace]; decide))
      have hkept := Kept.delimiter rest hparent (by rw [hbrace]; decide)
        (.inl ⟨rfl, rfl⟩ : ClosedBy [] [])
      rw [hbrace, List.append_nil] at hkept
      exact hkept

theorem faithful_fractionSpan : Faithful (fractionSpan 0) IsFlattened where
  covers := fun _ _ h => covers_of_fractionSpan h
  hasRun := by
    rintro old build ⟨opening, integral, text, plus, sum, last, close, rfl, hflat, -⟩
    exact ⟨text, by simp, hflat.isText⟩
  isRun_build := by
    rintro old build objects ⟨opening, integral, text, plus, sum, last, close, -, -, rfl⟩
    exact isRun_delimiter _ _ _
  kept := by
    rintro old build out parent ⟨opening, integral, text, plus, sum, last, close, rfl, hflat, rfl⟩ hout hparent
    obtain ⟨hopening, hclose⟩ := length_of_closing? hflat.pair
    have hold : opening :: integral :: text :: (plus ++ [sum, last]) =
        opening :: ((integral :: text :: (plus ++ [sum])) ++ [last]) := by simp
    rw [hold] at hout
    obtain ⟨inner, rfl, hinner⟩ := exists_between_of_standsFor (integral :: text :: (plus ++ [sum])) hout
      (isRun_of_glyphs (ne_nil_of_length hopening)) hflat.isRun
    cases hinner with
    | @cons _ integral' _ rest' _ hinner =>
      obtain ⟨den, rfl, -⟩ := exists_cons_of_standsFor hinner hflat.isText
      have hbuild : bracketedFraction opening.glyphs close (opening :: ((integral' :: text :: den) ++ [last])) =
          Omml.delimiter opening.glyphs close [Omml.fraction [integral', text] den] := by
        simp [bracketedFraction]
      rw [hbuild]
      have hfraction : Kept false parent (opening :: ((integral' :: text :: den) ++ [last]))
          (opening :: ([Omml.fraction [integral', text] den] ++ [last])) := by
        refine Kept.cons (Kept.refl [opening]) (Kept.append ?_ (Kept.refl [last]))
        exact Kept.fraction [integral', text] den hparent ⟨text, by simp, hflat.isText⟩
      exact hfraction.trans (Kept.delimiter _ hparent hopening (.inr ⟨last, rfl, hflat.closes, hclose⟩))

theorem faithful_promotionSpan : Faithful (promotionSpan 0) IsPromoted where
  covers := fun _ _ h => covers_of_promotionSpan h
  hasRun := by
    rintro old build ⟨opening, tall, last, close, rfl, hpair, -, -⟩
    exact ⟨opening, by simp, isRun_of_glyphs (ne_nil_of_length (length_of_closing? hpair).1)⟩
  isRun_build := by
    rintro old build objects ⟨opening, tall, last, close, -, -, -, rfl⟩
    exact isRun_delimiter _ _ _
  kept := by
    rintro old build out parent ⟨opening, tall, last, close, rfl, hpair, hlast, rfl⟩ hout hparent
    obtain ⟨hopening, hclose⟩ := length_of_closing? hpair
    obtain ⟨inner', rfl, -⟩ := exists_between_of_standsFor [tall] hout
      (isRun_of_glyphs (ne_nil_of_length hopening)) (isRun_of_glyphs (by rw [hlast]; exact ne_nil_of_length hclose))
    have hkept := Kept.delimiter inner' hparent hopening
      (.inr ⟨last, rfl, hlast, hclose⟩ : ClosedBy [last] close)
    simpa only [interior_cons_append] using hkept

end EquationExport.Omml
