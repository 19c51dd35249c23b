import EquationExport.Proofs.Text.Occurrence
import EquationExport.Text.Substitution

/-!
# Where code points come from

What is trimmed, split, joined or substituted has no code points but those of the text and those that are put in.
-/

namespace EquationExport.Text

variable {s t old new sep piece : Text} {c d : CodePoint} {pieces : List Text}

theorem mem_of_mem_trim (h : c ∈ s.trim) : c ∈ s := (trim_isInfix s).subset h

theorem mem_of_mem_join (h : c ∈ join sep pieces) : c ∈ sep ∨ ∃ piece ∈ pieces, c ∈ piece := by
  fun_induction join sep pieces with
  | case1 => exact absurd h List.not_mem_nil
  | case2 piece => exact .inr ⟨piece, List.mem_cons_self, h⟩
  | case3 piece rest _ ih =>
    rw [List.mem_append, List.mem_append] at h
    rcases h with (h | h) | h
    · exact .inr ⟨piece, List.mem_cons_self, h⟩
    · exact .inl h
    · rcases ih h with hsep | ⟨other, hother, hc⟩
      · exact .inl hsep
      · exact .inr ⟨other, List.mem_cons_of_mem _ hother, hc⟩

theorem mem_of_mem_splitOn (h : piece ∈ splitOn d s) (hc : c ∈ piece) : c ∈ s := by
  induction s generalizing piece with
  | nil =>
    obtain rfl := List.mem_singleton.1 h
    exact hc
  | cons e s ih =>
    rw [splitOn] at h
    split at h
    · obtain rfl := List.mem_singleton.1 h
      exact absurd hc List.not_mem_nil
    · next first rest hsplit =>
      rw [hsplit] at ih
      split at h
      · rcases List.mem_cons.1 h with rfl | h
        · exact absurd hc List.not_mem_nil
        · exact List.mem_cons_of_mem _ (ih h hc)
      · rcases List.mem_cons.1 h with rfl | h
        · rcases List.mem_cons.1 hc with rfl | hc
          · exact List.mem_cons_self
          · exact List.mem_cons_of_mem _ (ih List.mem_cons_self hc)
        · exact List.mem_cons_of_mem _ (ih (List.mem_cons_of_mem _ h) hc)

theorem mem_of_mem_substituteFrom {skip? : Text → Option Text} {before : Option CodePoint} {skip : Nat}
    (h : c ∈ substituteFrom (replacing skip? new) before skip s) : c ∈ s ∨ c ∈ new := by
  induction s generalizing before skip with
  | nil => simp [substituteFrom] at h
  | cons d s ih =>
    have hrest : ∀ {before skip}, c ∈ substituteFrom (replacing skip? new) before skip s → c ∈ d :: s ∨ c ∈ new :=
      fun h => (ih h).imp_left (List.mem_cons_of_mem _)
    cases skip with
    | succ skip => exact hrest h
    | zero =>
      rw [substituteFrom] at h
      split at h
      · next put rest hrule =>
        obtain ⟨_, -, heq⟩ := Option.map_eq_some_iff.1 hrule
        obtain ⟨rfl, -⟩ := Prod.mk.inj heq
        exact (List.mem_append.1 h).elim .inr hrest
      · rcases List.mem_cons.1 h with rfl | h
        · exact .inl List.mem_cons_self
        · exact hrest h

theorem mem_of_mem_replace (h : c ∈ s.replace old new) : c ∈ s ∨ c ∈ new := mem_of_mem_substituteFrom h

theorem mem_of_mem_replacePoint {a b : CodePoint} (h : c ∈ s.replacePoint a b) : c ∈ s ∨ c = b := by
  obtain ⟨d, hd, rfl⟩ := List.mem_map.1 h
  split
  · exact .inr rfl
  · exact .inl hd

theorem mem_of_mem_unixLines (h : c ∈ s.unixLines) : c ∈ s ∨ c = '\n' := by
  rcases mem_of_mem_replacePoint h with h | h
  · exact (mem_of_mem_replace h).imp_right List.mem_singleton.1
  · exact .inr h

end EquationExport.Text
