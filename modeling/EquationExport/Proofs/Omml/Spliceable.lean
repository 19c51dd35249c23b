import EquationExport.Proofs.Omml.Steady

/-!
# A repaired fragment can be spliced

What is written of a repaired fragment is read again, and all its elements are of equation markup. Three things
can go wrong: a name that means something else, or nothing, once the declarations are gone; a text or a value that
reads like a declaration, and goes with what stands around it; and elements that stand too deep in one another.
-/

namespace EquationExport.Omml

open Xml Xml.Node Repair

/-! ### Foreign elements -/

theorem everywhere_isMath_stripForeign (nodes : List Node) (parent : Option Tag) :
    Everywhere (fun n => n.isMath = true) (pruneAll (fun _ node => node.isMath) parent nodes) := by
  induction nodes using forest_induction generalizing parent with
  | nil => exact everywhere_nil
  | element tag text children tail rest ihc ihr =>
    simp only [pruneAll]
    split
    · next hmath => exact everywhere_cons.2 ⟨everywhere_singleton.2 ⟨hmath, ihc (some tag)⟩, ihr parent⟩
    · exact ihr parent
  | comment content tail rest ih | instruction target content tail rest ih => exact ih parent

/-- All names on the node mean under the known qualifiers what they mean where the node stands, and they are clear. -/
def usesKnownNames (node : Node) : Bool := node.tag?.all fun tag => namesKnown knownQualifiers tag && hasClearNames tag

variable {omml : Text} {f g : Fragment} {skip : List Text}

/-- The elements of equation markup in a fragment that was read are steady, if their names are known. -/
theorem isSteady_stripForeign (hparse : Fragment.parse? omml = some f)
    (hnames : ∀ n ∈ f.nodes, n.isMath = true → usesKnownNames n = true) :
    Everywhere IsSteady (stripForeign f).children := by
  obtain ⟨⟨text, children⟩, hread, rfl⟩ := Option.map_eq_some_iff.1 hparse
  have hroot : Tag.IsWellFormed ⟨⟨none, none, rootName⟩, [], []⟩ :=
    ⟨by decide, rfl, fun a ha => absurd ha List.not_mem_nil, rfl⟩
  have hlegal := isLegal_of_readContent? holdsOfTags_isWellFormed hroot hread
  let P : Node → Prop := fun n => n.IsLegal Tag.IsWellFormed ∧ (n.isMath = true → usesKnownNames n = true)
  have hlocal : Local P := fun tag text l l' tail h => ⟨⟨h.1.text, h.1.tail, h.1.tag⟩, h.2⟩
  have hP : Everywhere P (stripForeign ⟨text, children⟩).children :=
    hlocal.pruneAll _ _ _ fun n hn => ⟨hlegal n hn, hnames n hn⟩
  intro n hn
  obtain ⟨⟨htext, htail, htag⟩, hknown⟩ := hP n hn
  have hmath := everywhere_isMath_stripForeign children none n hn
  cases n with
  | element tag text l tail =>
    obtain ⟨hknown, hclear⟩ := Bool.and_eq_true_iff.1 (hknown hmath)
    refine isSteady_element.2 ⟨htext, htail, htag tag rfl, ?_, hknown, hclear⟩
    simpa [Node.isMath, Node.name?, Node.tag?] using hmath
  | comment | instruction => cases hmath

/-- After all repairs the elements are steady, if those of equation markup had known names. -/
theorem isSteady_repair (hparse : Fragment.parse? omml = some f)
    (hskip : skip.contains RepairRule.stripForeign.name = false)
    (hnames : ∀ n ∈ f.nodes, n.isMath = true → usesKnownNames n = true) : Everywhere IsSteady (f.repair skip).children :=
  lasting_isSteady.repair (fun _ hname => isSteady_mathElement (List.mem_append_right _ hname)) hskip
    (isSteady_stripForeign hparse hnames)

/-! ### What is written is read -/

theorem dropXmlDeclaration_flatMap_write {l : List Node} (h : Everywhere IsSteady l) :
    dropXmlDeclaration (l.flatMap (·.write)) = l.flatMap (·.write) := by
  cases l with
  | nil => rfl
  | cons n l =>
    have hn := (everywhere_singleton.1 (everywhere_cons.1 h).1).1
    cases n with
    | element tag text children tail =>
      obtain ⟨c, rest, hwritten, hstart⟩ := exists_cons_of_written (isSteady_element.1 hn).2.2.name
      obtain ⟨front, hfront⟩ : ∃ front, (element tag text children tail :: l).flatMap (·.write) =
          ('<' : CodePoint) :: c :: front := by
        rw [List.flatMap_cons, Node.write, Tag.write, hwritten]
        split <;> exact ⟨_, rfl⟩
      have hc : c ≠ '?' := by
        rintro rfl
        exact absurd hstart (by decide)
      have htrim : Text.trimStart (('<' : CodePoint) :: c :: front) = ('<' : CodePoint) :: c :: front :=
        List.dropWhile_cons_of_neg (by decide)
      have hdrop : Text.dropPrefix? (('<' : CodePoint) :: c :: front) "<?xml" = none :=
        (if_pos rfl).trans (not_startsWith_of_ne hc)
      rw [hfront, dropXmlDeclaration, htrim, hdrop]
    | comment | instruction => exact absurd hn.isMath Bool.false_ne_true

/-- A steady element without its declarations is steady. -/
theorem IsSteady.undeclared {node : Node} (h : IsSteady node) : IsSteady (Omml.undeclared node) := by
  cases node with
  | element tag text l tail =>
    obtain ⟨htext, htail, hwell, hspace, hknown, hnames⟩ := isSteady_element.1 h
    refine isSteady_element.2 ⟨htext, htail, ⟨hwell.name, hwell.attributes, hwell.plain, hwell.distinct⟩, hspace, hknown, ?_⟩
    rw [hasClearNames, Bool.and_eq_true] at hnames ⊢
    exact ⟨hnames.1, rfl⟩
  | comment | instruction => exact h

/-- The names on it are known to a reader who goes by the known qualifiers. -/
theorem IsSteady.isKnown_undeclared {node : Node} (h : IsSteady node) : (Omml.undeclared node).IsKnown knownQualifiers := by
  cases node with
  | element tag text l tail =>
    obtain ⟨htext, htail, hwell, -, hknown, -⟩ := isSteady_element.1 h
    simp only [namesKnown, Bool.and_eq_true, List.all_eq_true, beq_iff_eq] at hknown
    exact ⟨⟨⟨hwell.name, hwell.attributes, rfl⟩, hknown.1, hknown.2, hwell.plain, hwell.distinct⟩, htext, htail⟩
  | comment | instruction => exact absurd h.isMath Bool.false_ne_true

theorem IsSteady.isClear {node : Node} (h : IsSteady node) (hquiet : isQuiet node = true) : IsClear node := by
  obtain ⟨tag, htag, hwell, -, -, hnames⟩ := h.tag
  exact ⟨⟨tag, htag, hwell, hnames⟩, hquiet⟩

theorem byName_isMath : ByName fun n => n.isMath = true := fun _ _ hname hn => (congrArg (Option.any _) hname.symm).trans hn

/-- A steady fragment is written as its trees without their declarations are. -/
theorem Fragment.write_of_steady (hsteady : Everywhere IsSteady g.children)
    (hquiet : Everywhere (fun n => isQuiet n = true) g.children) : g.write = (undeclareds g.children).flatMap (·.write) :=
  dropDeclarations_flatMap_write _ fun n hn => (hsteady n hn).isClear (hquiet n hn)

/-- A steady fragment is read again as it was written, with all its elements. -/
theorem Fragment.exists_parse?_write (hsteady : Everywhere IsSteady g.children)
    (hquiet : Everywhere (fun n => isQuiet n = true) g.children) (hdepth : heights g.children < maxDepth) :
    ∃ h, parse? g.write = some h ∧ Everywhere (fun n => n.isMath = true) h.children ∧
      (∀ keeps, Everywhere (·.HoldsText keeps) (undeclareds g.children) →
        skeletons keeps h.children = skeletons keeps (undeclareds g.children)) ∧
      (Everywhere (fun n => n.isTidy = true) g.children → h = ⟨none, rereads (undeclareds g.children)⟩) := by
  have hundeclared : Everywhere IsSteady (undeclareds g.children) := everywhere_undeclareds (fun _ h => h.undeclared) hsteady
  have hknown : Everywhere (·.IsKnown knownQualifiers) (undeclareds g.children) :=
    everywhere_undeclareds (fun _ h => h.isKnown_undeclared) hsteady
  obtain ⟨text, read, hread, hskeletons, htidy⟩ := exists_readContent knownQualifiers ⟨⟨none, none, rootName⟩, [], []⟩ _ hknown
    (by rwa [heights_undeclareds])
  refine ⟨⟨text, read⟩, ?_, ?_, hskeletons, fun h => ?_⟩
  · rw [write_of_steady hsteady hquiet, parse?, dropXmlDeclaration_flatMap_write hundeclared, hread]
    rfl
  · have hbare : Everywhere (fun n => n.isMath = true) (skeletons (fun _ => false) read) := by
      rw [hskeletons _ fun n _ tag _ hkeeps => absurd hkeeps Bool.false_ne_true]
      exact (everywhere_skeletons byName_isMath _).2 (hundeclared.mono fun n hn => hn.isMath)
    exact (everywhere_skeletons byName_isMath read).1 hbare
  · have htidied : Everywhere (fun n => n.isTidy = true) (undeclareds g.children) := by
      refine everywhere_undeclareds (fun n hn => ?_) h
      cases n with
      | element tag text l tail => cases l <;> exact hn
      | comment | instruction => exact hn
    obtain ⟨rfl, rfl⟩ := htidy htidied
    rfl

end EquationExport.Omml
