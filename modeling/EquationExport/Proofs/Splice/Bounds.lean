import EquationExport.Proofs.Splice.Place

/-!
# The bounds of runs

In a document whose runs are closed, each before the next one opens, a position lies in one run at most. The search for
the run around a position finds its bounds, and nothing where there is none: tags whose names only begin like that of a
run, and the empty run without attributes, are passed over on the way back to the opening.
-/

namespace EquationExport.Splice

open EquationExport.Text

variable {document : Text} {index start close : Nat}

/-- A run opens at `start` and is closed at `close`: by the first end of a run behind it, before another run opens. -/
structure RunBetween (document : Text) (start close : Nat) : Prop where
  opens : OpensRunAt document start
  closes : StandsAt document close "</w:r>"
  behind : start < close
  alone : ∀ i, start < i → i < close → ¬ OpensRunAt document i ∧ ¬ StandsAt document i "</w:r>"

/-- A position lies in the run between two others: the opening `<w:r` ends there or before, and the end does not start before it. -/
def Surrounds (start close index : Nat) : Prop := start + 4 ≤ index ∧ index ≤ close

/-- The tag that opens a run is no end of a run. -/
theorem not_standsAt_end_of_opens (h : OpensRunAt document start) : ¬ StandsAt document start "</w:r>" := by
  intro hend
  have hslash := hend.getElem? (k := 1) (by decide)
  rcases h with h | h
  · exact absurd ((h.getElem? (k := 1) (by decide)).symm.trans hslash) (by decide)
  · exact absurd ((h.getElem? (k := 1) (by decide)).symm.trans hslash) (by decide)

/-- The first end of a run behind the opening of a run is the one that closes it. -/
theorem RunBetween.firstAt (h : RunBetween document start close) : FirstAt (document.drop start) (close - start) "</w:r>" := by
  have hstands : ∀ k, StandsAt (document.drop start) k "</w:r>" ↔ StandsAt document (start + k) "</w:r>" := by
    intro k
    rw [StandsAt, StandsAt, List.drop_drop]
  have hbehind := h.behind
  refine ⟨(hstands _).2 (by rw [Nat.add_sub_cancel' hbehind.le]; exact h.closes), fun j hj hend => ?_⟩
  rw [hstands] at hend
  rcases Nat.eq_zero_or_pos j with rfl | hpos
  · exact not_standsAt_end_of_opens h.opens hend
  · exact (h.alone (start + j) (by omega) (by omega)).2 hend

/-- The run that surrounds a position is the run around it: no other run opens between. -/
theorem RunBetween.runAround (h : RunBetween document start close) (hin : Surrounds start close index) :
    RunAround document index start (close + 6) := by
  have hbehind := h.behind
  refine ⟨h.opens, hin.1, fun i hi hlimit => ?_, close - start, h.firstAt, ?_, ?_⟩
  · by_contra hlater
    have hle := hin.2
    exact (h.alone i (by omega) (by omega)).1 hi
  · have hle := hin.2
    omega
  · omega

/-- The run around a position surrounds it, if the runs of the document are closed. -/
theorem RunAround.surrounds {stop : Nat} (h : RunAround document index start stop) (hrun : RunBetween document start close) :
    Surrounds start close index ∧ stop = close + 6 := by
  obtain ⟨n, hn, hle, rfl⟩ := h.closes
  have hbehind := hrun.behind
  obtain rfl := hn.unique hrun.firstAt
  exact ⟨⟨h.before, by omega⟩, by omega⟩

/--
In a document in which every run is closed, by the first end of a run behind its opening and before another run opens,
the search for the run around a position is not refused. It finds the bounds of the run that surrounds the position, and
it finds nothing exactly if no run does. An end of a run that closes none would not matter.
-/
theorem enclosingRun?_bounds (hclosed : ∀ i, OpensRunAt document i → ∃ close, RunBetween document i close)
    (hindex : index < document.length) :
    ∃ found, enclosingRun? document index = .ok found ∧
      (∀ start stop, found = some (start, stop) ↔
        ∃ close, RunBetween document start close ∧ Surrounds start close index ∧ stop = close + 6) ∧
      (found = none ↔ ∀ start close, RunBetween document start close → ¬ Surrounds start close index) := by
  rcases enclosingRun?_cases (.inr hindex) with ⟨hnone, hno⟩ | ⟨start, stop, hsome, haround⟩
  · have hout : ∀ start close, RunBetween document start close → ¬ Surrounds start close index :=
      fun start close hrun hin => hno _ _ (hrun.runAround hin)
    refine ⟨none, hnone, fun start stop => iff_of_false (by simp) ?_, iff_of_true rfl hout⟩
    rintro ⟨close, hrun, hin, -⟩
    exact hout start close hrun hin
  · obtain ⟨close, hrun⟩ := hclosed start haround.opens
    obtain ⟨hin, rfl⟩ := haround.surrounds hrun
    refine ⟨some (start, close + 6), hsome, fun start' stop' => ⟨fun heq => ?_, ?_⟩, iff_of_false (by simp) ?_⟩
    · obtain ⟨rfl, rfl⟩ := Prod.mk.inj (Option.some.inj heq)
      exact ⟨close, hrun, hin, rfl⟩
    · rintro ⟨close', hrun', hin', rfl⟩
      obtain ⟨rfl, heq⟩ := haround.unique (hrun'.runAround hin')
      rw [heq]
    · exact fun hout => hout start close hrun hin

/-- Two runs with a position in the first and one between them; in the first stand an empty run and names that begin alike. -/
theorem enclosingRun?_twoRuns :
    let document : Text := "<w:p><w:r w:a=\"1\"><w:rPr><w:rFonts/></w:rPr><w:r/><w:t>x</w:t></w:r>y<w:r>z</w:r></w:p>"
    (∀ i, OpensRunAt document i → ∃ close, RunBetween document i close) ∧ 68 < document.length ∧
      enclosingRun? document (55 : Nat) = .ok (some (5, 68)) ∧ enclosingRun? document (68 : Nat) = .ok none := by
  intro document
  have hopenings : ∀ i < 87, OpensRunAt document i → i = 5 ∨ i = 69 := by decide +kernel
  have halone : ∀ i < 87, (5 < i ∧ i < 62) ∨ (69 < i ∧ i < 75) →
      ¬ OpensRunAt document i ∧ ¬ StandsAt document i "</w:r>" := by decide +kernel
  have hlength : document.length = 87 := by decide +kernel
  have hfirst : RunBetween document 5 62 :=
    ⟨by decide +kernel, by decide +kernel, by decide, fun i hafter hbefore => halone i (by omega) (.inl ⟨hafter, hbefore⟩)⟩
  have hsecond : RunBetween document 69 75 :=
    ⟨by decide +kernel, by decide +kernel, by decide, fun i hafter hbefore => halone i (by omega) (.inr ⟨hafter, hbefore⟩)⟩
  have hclosed : ∀ i, OpensRunAt document i → ∃ close, RunBetween document i close := by
    intro i hi
    have hle := hi.add_five_le
    rcases hopenings i (by omega) hi with rfl | rfl
    · exact ⟨62, hfirst⟩
    · exact ⟨75, hsecond⟩
  have hinside : 55 < document.length := by omega
  have houtside : 68 < document.length := by omega
  refine ⟨hclosed, houtside, ?_, ?_⟩
  · obtain ⟨found, hfound, hbounds, -⟩ := enclosingRun?_bounds hclosed hinside
    rw [hfound, (hbounds 5 68).2 ⟨62, hfirst, ⟨by decide, by decide⟩, rfl⟩]
  · obtain ⟨found, hfound, -, hnone⟩ := enclosingRun?_bounds hclosed houtside
    rw [hfound, hnone.2 fun start close hrun hin => ?_]
    -- the end of the first run starts before the position, and the second run opens behind it
    have hbefore := hin.1
    have hafter := hin.2
    have hle := hrun.opens.add_five_le
    rcases hopenings start (by omega) hrun.opens with rfl | rfl
    · exact (hrun.alone 62 (by omega) (by omega)).2 hfirst.closes
    · omega

end EquationExport.Splice
