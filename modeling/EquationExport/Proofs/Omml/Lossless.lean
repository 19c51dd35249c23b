import EquationExport.Proofs.Omml.NormalForm

/-!
# No text is lost in writing

The texts of the text elements of a repaired fragment are read again from what is written of it, character by
character, whatever characters they hold: the three that markup is made of, quotes, line ends, and white space at the
ends, which is declared to count. One sequence of characters is lost: the front of a declaration, which is taken away
with all that stands before the next quote.
-/

namespace EquationExport.Omml

open Xml Xml.Node Repair

variable {omml : Text} {f g : Fragment} {tag : Tag}

/-! ### The texts of a fragment -/

/-- The tag of a text element. -/
def isTextTag (tag : Tag) : Bool := tag.name.localPart == "t" && tag.name.space == some mathNamespace

theorem isNamed_text (node : Node) : node.isNamed "t" = node.tag?.any isTextTag := by cases node <;> rfl

/-- The texts of the text elements in some trees, in document order. -/
def textsOf (l : List Node) : List Text := ((subtrees l).filter (·.isNamed "t")).map fun n => n.text?.getD []

/-- The texts of the text elements of a fragment, in document order. -/
def Fragment.texts (f : Fragment) : List Text := textsOf f.children

theorem textsOf_append (a b : List Node) : textsOf (a ++ b) = textsOf a ++ textsOf b := by
  rw [textsOf, subtrees_append, List.filter_append, List.map_append, textsOf, textsOf]

theorem textsOf_element (tag : Tag) (text : Option Text) (children : List Node) (tail : Text) (rest : List Node) :
    textsOf (element tag text children tail :: rest) =
      (if isTextTag tag then [text.getD []] else []) ++ textsOf children ++ textsOf rest := by
  have hnode : textsOf [element tag text children tail] =
      (if isTextTag tag then [text.getD []] else []) ++ textsOf children := by
    rw [textsOf, subtrees_cons, subtree, subtrees_nil, List.append_nil, List.filter_cons, isNamed_text]
    cases h : isTextTag tag <;> simp [Node.tag?, h, textsOf, Node.text?]
  rw [← List.singleton_append, textsOf_append, hnode]

/-- What is not looked at in a skeleton is no text. -/
theorem textsOf_skeletons (l : List Node) : textsOf (skeletons isTextTag l) = textsOf l := by
  induction l using forest_induction with
  | nil => rfl
  | element tag text children tail rest ihc ihr =>
    rw [skeletons, Node.skeleton, textsOf_element, textsOf_element, ihc, ihr]
    cases h : isTextTag tag with
    | false => rfl
    | true => rcases text with _ | _ | ⟨c, t⟩ <;> rfl
  | comment content tail rest ih | instruction target content tail rest ih => exact ih

/-- Declarations are no text. -/
theorem textsOf_undeclareds (l : List Node) : textsOf (undeclareds l) = textsOf l := by
  induction l using forest_induction with
  | nil => rfl
  | element tag text children tail rest ihc ihr =>
    rw [undeclareds, undeclared, textsOf_element, textsOf_element, ihc, ihr]
    rfl
  | comment content tail rest ih | instruction target content tail rest ih => exact ih

/-! ### Texts that are read again -/

/-- Nothing but blank characters, and none at the ends. -/
theorem eq_nil_of_isBlank_of_eq_trim {t : Text} (hblank : t.all (·.isBlank) = true) (htrim : t = t.trim) : t = [] := by
  have hspace : ∀ c ∈ t, c.isSpace = true := fun c hc => CodePoint.isSpace_of_isBlank (List.all_eq_true.1 hblank c hc)
  have hstart : t.trimStart = [] := List.dropWhile_eq_nil_iff.2 hspace
  rw [htrim, Text.trim, hstart]
  rfl

/-- The text of a text element in normal form is not lost. -/
theorem IsRepaired.holdsText {node : Node} (h : IsRepaired node) : (undeclared node).HoldsText isTextTag := by
  intro tag' htag' hkept
  cases node with
  | element tag text children tail =>
    obtain rfl : undeclaredTag tag = tag' := Option.some.inj htag'
    have hnamed : (element tag text children tail).isNamed "t" = true := hkept
    by_cases htrim : text.getD [] = (text.getD []).trim
    · by_cases hblank : (text.getD []).all (·.isBlank) = true
      · exact .inl (eq_nil_of_isBlank_of_eq_trim hblank htrim)
      · exact .inr (.inr (Bool.eq_false_iff.2 hblank))
    · exact .inr (.inl (h.space hnamed (.inl htrim)))
  | comment | instruction => cases htag'

/-- The texts of a steady fragment in normal form are read again as they were written. -/
theorem Fragment.exists_texts_parse?_write (hsteady : Everywhere IsSteady g.children) (hrepaired : ∀ n ∈ g.nodes, IsRepaired n)
    (hquiet : ∀ n ∈ g.nodes, isQuiet n = true) (hdepth : heights g.children < maxDepth) :
    ∃ h, parse? g.write = some h ∧ h.texts = g.texts := by
  obtain ⟨h, hread, -, hskeletons, -⟩ := exists_parse?_write hsteady hquiet hdepth
  have hholds : Everywhere (·.HoldsText isTextTag) (undeclareds g.children) :=
    everywhere_undeclareds (fun _ hn => hn.holdsText) hrepaired
  refine ⟨h, hread, ?_⟩
  calc textsOf h.children
      _ = textsOf (skeletons isTextTag h.children) := (textsOf_skeletons _).symm
      _ = textsOf (skeletons isTextTag (undeclareds g.children)) := by rw [hskeletons _ hholds]
      _ = textsOf g.children := by rw [textsOf_skeletons, textsOf_undeclareds]

/-! ### One qualifier -/

/-- Names are written with the qualifiers `m` and `xml` alone, and no other qualifier than `m` is declared. -/
def usesMathAlone (tag : Tag) : Bool :=
  tag.name.qualifier == some "m" &&
    tag.attributes.all (fun a => a.name.qualifier.all (["m", "xml"] : List Text).contains) &&
    tag.declarations.all (·.qualifier == some "m")

/-- A tag that is read and resolved has the names that it has in some scope. -/
theorem holdsOfTags_namesKnown : HoldsOfTags fun tag => ∃ scope, namesKnown scope tag = true := by
  intro s written rest scope tag inner _ hresolve
  unfold resolve? at hresolve
  dsimp only at hresolve
  split at hresolve
  · cases hresolve
  · obtain ⟨element, helement, hresolve⟩ := Option.bind_eq_some_iff.1 hresolve
    obtain ⟨resolved, hresolved, hresolve⟩ := Option.bind_eq_some_iff.1 hresolve
    split at hresolve
    · obtain ⟨rfl, hinner⟩ := Prod.mk.inj (Option.some.inj hresolve)
      rw [hinner] at helement hresolved
      have hattributes : ∀ a ∈ resolved, ∃ written, attributeName? inner written = some a.name := by
        refine forall_of_mapM hresolved ?_
        rintro ⟨written, value⟩ - a ha
        obtain ⟨name, hname, rfl⟩ := Option.map_eq_some_iff.1 ha
        exact ⟨written, hname⟩
      refine ⟨inner, Bool.and_eq_true_iff.2 ⟨?_, List.all_eq_true.2 fun a ha => ?_⟩⟩
      · rw [parts_of_elementName? helement, helement, beq_iff_eq]
      · obtain ⟨written, hname⟩ := hattributes a ha
        rw [parts_of_attributeName? hname, hname, beq_iff_eq]
    · cases hresolve

/-- Where the qualifier of equation markup means what it is known to mean, so do all names under it. -/
theorem namesKnown_of_usesMathAlone {scope : Scope} (hknown : namesKnown scope tag = true)
    (hspace : tag.name.space = some mathNamespace) (halone : usesMathAlone tag = true) :
    namesKnown knownQualifiers tag = true := by
  simp only [namesKnown, usesMathAlone, Bool.and_eq_true, List.all_eq_true, beq_iff_eq] at hknown halone ⊢
  obtain ⟨helement, hattributes⟩ := hknown
  obtain ⟨⟨hqualifier, hqualifiers⟩, -⟩ := halone
  have hparts : tag.name.parts = (some ("m" : Text), tag.name.localPart) := Prod.ext hqualifier rfl
  have hmath : scope.find? (some "m") = some mathNamespace := by
    rw [hparts] at helement
    obtain ⟨space, hfind, hname⟩ := Option.map_eq_some_iff.1 helement
    rw [hfind, ← hspace, ← hname]
  have hfind : Scope.find? knownQualifiers (some "m") = scope.find? (some "m") := hmath.symm ▸ rfl
  refine ⟨?_, fun a ha => ?_⟩
  · rw [← helement, hparts, elementName?, elementName?, hfind]
  · rw [← hattributes a ha]
    have hqualifier := hqualifiers a ha
    obtain ⟨⟨qualifier, space, localPart⟩, value⟩ := a
    cases qualifier with
    | none => rfl
    | some q =>
      have hq : q = "m" ∨ q = "xml" := by simpa using hqualifier
      show attributeName? _ (some q, localPart) = attributeName? _ (some q, localPart)
      rcases hq with rfl | rfl
      · rw [attributeName?, attributeName?, hfind]
      · rfl

/-- A fragment that uses one qualifier has known names on its elements of equation markup. -/
theorem usesKnownNames_of_usesMathAlone (hparse : Fragment.parse? omml = some f)
    (hnames : ∀ n ∈ f.nodes, n.isMath = true → n.tag?.all (fun tag => usesMathAlone tag && hasClearNames tag) = true) :
    ∀ n ∈ f.nodes, n.isMath = true → usesKnownNames n = true := by
  obtain ⟨⟨text, children⟩, hread, rfl⟩ := Option.map_eq_some_iff.1 hparse
  have hresolved := isLegal_of_readContent? holdsOfTags_namesKnown ⟨[], rfl⟩ hread
  intro n hn hmath
  have halone := hnames n hn hmath
  cases n with
  | element tag text l tail =>
    obtain ⟨halone, hclear⟩ := Bool.and_eq_true_iff.1 halone
    obtain ⟨scope, hknown⟩ := (hresolved _ hn).tag tag rfl
    have hspace : tag.name.space = some mathNamespace := by simpa [Node.isMath, Node.name?, Node.tag?] using hmath
    exact Bool.and_eq_true_iff.2 ⟨namesKnown_of_usesMathAlone hknown hspace halone, hclear⟩
  | comment | instruction => cases hmath

/--
No text is lost when a repaired fragment is written: what is written is read again, and the text elements hold the same
texts in the same order. The elements of equation markup are written with the qualifiers `m` and `xml` alone and
declare no other, and no name on them holds white space; no text or value of the repaired fragment reads like the front
of a declaration; and the elements do not stand too deep in one another.
-/
theorem exists_texts_repairOmml (hparse : Fragment.parse? omml = some f)
    (hnames : ∀ n ∈ f.nodes, n.isMath = true → n.tag?.all (fun tag => usesMathAlone tag && hasClearNames tag) = true)
    (hquiet : ∀ n ∈ (f.repair []).nodes, isQuiet n = true) (hdepth : heights (f.repair []).children < maxDepth) :
    ∃ s h, repairOmml omml [] = some s ∧ Fragment.parse? s = some h ∧ h.texts = (f.repair []).texts := by
  obtain ⟨hwritten, hrepaired⟩ := isRepaired_repair hparse
  have hsteady : Everywhere IsSteady (f.repair []).children :=
    isSteady_repair hparse rfl (usesKnownNames_of_usesMathAlone hparse hnames)
  obtain ⟨h, hread, htexts⟩ := Fragment.exists_texts_parse?_write hsteady hrepaired hquiet hdepth
  exact ⟨(f.repair []).write, h, hwritten, hread, htexts⟩

/-- Texts with markup in them, quotes, the word for declarations, a line end and white space that counts. -/
def crowdedTexts : Text :=
  "<m:oMath xmlns:m=\"http://schemas.openxmlformats.org/officeDocument/2006/math\"><m:f><m:num><m:r>" ++
    "<m:t xml:space=\"preserve\"> a &lt;\"b\"&gt; xmlns=&amp; </m:t></m:r></m:num>" ++
    "<m:den><m:r><m:t>&#32;&#10;<m:ctrl m:val=\"1\"/></m:t></m:r></m:den></m:f></m:oMath>"

theorem exists_texts_repairOmml_crowdedTexts :
    ∃ f s h, Fragment.parse? crowdedTexts = some f ∧ repairOmml crowdedTexts [] = some s ∧ Fragment.parse? s = some h ∧
      h.texts = (f.repair []).texts := by
  have hcrowded : (Fragment.parse? crowdedTexts).any (fun f =>
      f.nodes.all (fun n => !n.isMath || n.tag?.all fun tag => usesMathAlone tag && hasClearNames tag) &&
        (f.repair []).nodes.all isQuiet && decide (heights (f.repair []).children < maxDepth)) = true := by decide +kernel
  obtain ⟨f, hparse, hf⟩ := (Option.any_eq_true _ _).1 hcrowded
  simp only [Bool.and_eq_true, List.all_eq_true, decide_eq_true_eq] at hf
  obtain ⟨⟨hnames, hquiet⟩, hdepth⟩ := hf
  obtain ⟨s, h, hrepair, hread, htexts⟩ := exists_texts_repairOmml hparse
    (fun n hn hmath => by simpa [hmath] using hnames n hn) hquiet hdepth
  exact ⟨f, s, h, hparse, hrepair, hread, htexts⟩

/-- A text that reads like a declaration between two letters. -/
def announcingText : Text := "<m:r><m:t>a xmlns=\"b\"c</m:t></m:r>"

/-- The text is read and kept by the repair, and is gone when the fragment is written and read again. -/
theorem repairOmml_announcingText :
    (Fragment.parse? announcingText).map (fun f => (f.repair []).texts) = some [("a xmlns=\"b\"c" : Text)] ∧
      repairOmml announcingText [] = some "<m:r><m:t>ac</m:t></m:r>" ∧
        (Fragment.parse? "<m:r><m:t>ac</m:t></m:r>").map Fragment.texts = some [("ac" : Text)] := by decide +kernel

end EquationExport.Omml
