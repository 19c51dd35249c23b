import EquationExport.Proofs.Mathml.Attributes
import EquationExport.Proofs.Text.Membership

/-!
# Cleaning a tree

The cleaner works on MathML as it is written, by searching for tags, characters and attributes. On what is written of a
tree it comes to the same as taking the tree apart: annotations are deleted, then `semantics` and `mstyle` unwrapped, then
invisible operators deleted, typographic spaces made plain, text elements flattened, fence attributes and declarations
dropped. For this no annotation may stand in another one of its kind and no text element in a text element, since a search
takes the first closing tag for the right one; values hold neither a double quote nor an equals sign; and before
declarations are dropped no text may have the name of a declaration in it. It is not enough that no text of the tree at the
start has it: where an element between two texts is unwrapped or deleted, the texts come together.
-/

namespace EquationExport.Mathml

open Html (Node keptValue precedes writeNodesIn isVoid verbatimNames)

variable {content children : Content} {target t : Text} {edit : Edit} {P : Text → Attributes → Content → Prop}

/-! ### Page trees as content -/

/-- The attributes of an element in the order and with the values that are written. -/
def keptAttributes (name : Text) (attributes : Attributes) : Attributes :=
  (attributes.mergeSort fun a b => precedes a.1 b.1).map fun a => (a.1, keptValue name a)

mutual

/-- A node with content behind it. -/
def Content.ofNode (rest : Content) : Node → Content
  | .element name attributes children => .element [] name (keptAttributes name attributes) (Content.ofNodes children) rest
  | .text _ t => rest.prepend t
  | .markup _ _ => rest

/-- The content that nodes are. -/
def Content.ofNodes : List Node → Content
  | [] => .text []
  | node :: nodes => Content.ofNode (Content.ofNodes nodes) node

end

mutual

/-- Elements and texts alone, the elements with proper names and proper attributes and none that is written in a way of its own. -/
def isElementTree : Node → Bool
  | .element name attributes children =>
    isElementName name && !isVoid name && !verbatimNames.contains name && attributes.all isProperAttribute && areElementTrees children
  | .text _ _ => true
  | .markup _ _ => false

def areElementTrees : List Node → Bool
  | [] => true
  | node :: nodes => isElementTree node && areElementTrees nodes

end

/-- A word is made of characters of the text. -/
theorem mem_of_mem_wordsFrom {c : CodePoint} {w s : Text} {word : Option Text} (hw : w ∈ Html.wordsFrom word s) (hc : c ∈ w) :
    c ∈ s ∨ c ∈ word.getD [] := by
  fun_induction Html.wordsFrom word s with
  | case1 word =>
    rw [Option.mem_toList] at hw
    exact .inr (hw ▸ hc)
  | case2 word d s hspace ih =>
    rcases List.mem_append.1 hw with hw | hw
    · rw [Option.mem_toList] at hw
      exact .inr (hw ▸ hc)
    · rcases ih hw with hmem | hmem
      · exact .inl (List.mem_cons_of_mem d hmem)
      · exact absurd hmem List.not_mem_nil
  | case3 word d s hspace ih =>
    rcases ih hw with hmem | hmem
    · exact .inl (List.mem_cons_of_mem d hmem)
    · rw [Option.getD_some, List.mem_append, List.mem_singleton] at hmem
      rcases hmem with hmem | rfl
      · exact .inr hmem
      · exact .inl List.mem_cons_self

/-- A value is kept with single spaces between its words, or as it is. -/
theorem mem_of_mem_keptValue {name : Text} {a : Text × Text} {c : CodePoint} (hc : c ∈ keptValue name a) : c = ' ' ∨ c ∈ a.2 := by
  unfold keptValue at hc
  split at hc
  · rcases Text.mem_of_mem_join hc with hspace | ⟨word, hword, hmem⟩
    · exact .inl (List.mem_singleton.1 hspace)
    · rcases mem_of_mem_wordsFrom hword hmem with hmem | hmem
      · exact .inr hmem
      · exact absurd hmem List.not_mem_nil
  · exact .inr hc

theorem isProperAttribute_of_value {a : Text × Text} (h : isProperAttribute a = true)
    (ht : ∀ c ∈ ("\"=" : Text), c ∈ t → c ∈ a.2) : isProperAttribute (a.1, t) = true := by
  obtain ⟨hname, hquote, hsign⟩ := isProperAttribute_iff.1 h
  exact isProperAttribute_iff.2 ⟨hname, fun hmem => hquote (ht _ (by decide) hmem), fun hmem => hsign (ht _ (by decide) hmem)⟩

theorem isProperAttribute_keptValue {name : Text} {a : Text × Text} (h : isProperAttribute a = true) :
    isProperAttribute (a.1, keptValue name a) = true := by
  refine isProperAttribute_of_value h fun c hc hmem => ?_
  rcases mem_of_mem_keptValue hmem with rfl | hmem
  · exact absurd hc (by decide)
  · exact hmem

theorem isProper_keptAttributes {name : Text} {attributes : Attributes} (h : ∀ a ∈ attributes, isProperAttribute a = true) :
    ∀ a ∈ keptAttributes name attributes, isProperAttribute a = true := by
  intro a ha
  obtain ⟨b, hb, rfl⟩ := List.mem_map.1 ha
  exact isProperAttribute_keptValue (h b (List.mem_mergeSort.1 hb))

/-- An attribute is written as it stands in the content. -/
theorem writeAttribute_keptValue {name : Text} {a : Text × Text} (h : isProperAttribute a = true) :
    Html.writeAttribute name a = writeAttribute (a.1, keptValue name a) := by
  have hkept : isProperAttribute (a.1, keptValue name a) = true := isProperAttribute_keptValue h
  have hquote := quote_not_mem_escape (isProperAttribute_iff.1 hkept).2.1
  have hquoted : Html.quotedValue (Html.escape (keptValue name a)) = "\"" ++ Html.escape (keptValue name a) ++ ("\"" : Text) := by
    rw [Html.quotedValue, if_pos (by simpa [Text.containsPoint] using hquote)]
  rw [Html.writeAttribute, hquoted, writeAttribute]
  simp [Text.ofString]

theorem writeTag_kept {name : Text} {attributes : Attributes} (h : ∀ a ∈ attributes, isProperAttribute a = true) :
    Html.writeTag name attributes = name ++ (keptAttributes name attributes).flatMap writeAttribute := by
  rw [Html.writeTag, keptAttributes, List.flatMap_map]
  refine congrArg (name ++ ·) (List.flatMap_congr fun a ha => ?_)
  exact writeAttribute_keptValue (h a (List.mem_mergeSort.1 ha))

mutual

/-- What is written of a tree is what is written of it as content. -/
theorem write_ofNode (rest : Content) {within : Text} (hwithin : within ∉ verbatimNames) :
    ∀ node : Node, isElementTree node = true → (Content.ofNode rest node).write = node.writeIn within ++ rest.write
  | .element name attributes children, h => by
    simp only [isElementTree, Bool.and_eq_true, Bool.not_eq_true', List.all_eq_true] at h
    obtain ⟨⟨⟨⟨-, hvoid⟩, hverbatim⟩, hattributes⟩, hchildren⟩ := h
    have hname : name ∉ verbatimNames := by simpa using hverbatim
    rw [Content.ofNode, Content.write, write_ofNodes hname children hchildren, Node.writeIn, hvoid, Bool.and_false]
    simp [writeTag_kept hattributes, openTag, tagInside, closeTag, Text.ofString, Html.escape]
  | .text _ t, _ => by
    rw [Content.ofNode, Content.write_prepend, Node.writeIn, if_neg hwithin]
  | .markup _ _, h => by
    cases h

theorem write_ofNodes {within : Text} (hwithin : within ∉ verbatimNames) :
    ∀ nodes : List Node, areElementTrees nodes = true → (Content.ofNodes nodes).write = writeNodesIn within nodes
  | [], _ => rfl
  | node :: nodes, h => by
    obtain ⟨hnode, hnodes⟩ := Bool.and_eq_true_iff.1 h
    rw [Content.ofNodes, write_ofNode _ hwithin node hnode, write_ofNodes hwithin nodes hnodes, writeNodesIn]

end

mutual

theorem proper_ofNode {rest : Content} (hrest : rest.Everywhere IsProper) :
    ∀ node : Node, isElementTree node = true → (Content.ofNode rest node).Everywhere IsProper
  | .element name attributes children, h => by
    simp only [isElementTree, Bool.and_eq_true, List.all_eq_true] at h
    exact ⟨⟨h.1.1.1.1, isProper_keptAttributes h.1.2⟩, proper_ofNodes children h.2, hrest⟩
  | .text _ t, _ => Content.everywhere_prepend.2 hrest
  | .markup _ _, h => by cases h

theorem proper_ofNodes : ∀ nodes : List Node, areElementTrees nodes = true → (Content.ofNodes nodes).Everywhere IsProper
  | [], _ => trivial
  | node :: nodes, h => by
    obtain ⟨hnode, hnodes⟩ := Bool.and_eq_true_iff.1 h
    exact proper_ofNode (proper_ofNodes nodes hnodes) node hnode

end

/-! ### What the passes keep -/

/-- The edit takes elements away, tags or all, and does not put anything in their place. -/
def Edit.Removes (edit : Edit) : Prop := ∀ name attributes children,
  edit name attributes children = .keep attributes ∨ edit name attributes children = .splice ∨
    edit name attributes children = .put (.text [])

theorem removes_deletion (target : Text) : (deletion target).Removes := fun name attributes children => by
  unfold deletion
  split <;> simp

theorem removes_unwrapping (target : Text) : (unwrapping target).Removes := fun name attributes children => by
  unfold unwrapping
  split <;> simp

theorem removes_invisibleDeletion : invisibleDeletion.Removes := fun name attributes children => by
  unfold invisibleDeletion
  split <;> simp

/-- What every element has is left to those that stay, if it does not depend on what is taken away inside. -/
theorem Edit.Removes.everywhere (hedit : edit.Removes) (h : content.Everywhere P)
    (hP : ∀ name attributes children, P name attributes children → P name attributes (children.reshape edit)) :
    (content.reshape edit).Everywhere P := by
  refine h.reshape fun name attributes children hroot => ?_
  rcases hedit name attributes children with heq | heq | heq <;> rw [heq]
  · exact hP name attributes children hroot
  · trivial
  · trivial

theorem Edit.Removes.proper (hedit : edit.Removes) (h : content.Everywhere IsProper) :
    (content.reshape edit).Everywhere IsProper := hedit.everywhere h fun _ _ _ h => h

theorem Edit.Removes.lacks (hedit : edit.Removes) (h : content.Lacks target) : (content.reshape edit).Lacks target :=
  hedit.everywhere h fun _ _ _ h => h

theorem Edit.Removes.unnested (hedit : edit.Removes) (h : content.Unnested target) : (content.reshape edit).Unnested target :=
  hedit.everywhere h fun _ _ _ h heq => hedit.lacks (h heq)

/-- Elements that are deleted are gone. -/
theorem lacks_deletion (target : Text) (content : Content) : (content.reshape (deletion target)).Lacks target := by
  have hall : content.Everywhere fun _ _ _ => True := by
    induction content with
    | text t => trivial
    | element before name attributes children rest ihc ihr => exact ⟨trivial, ihc, ihr⟩
  refine hall.reshape fun name attributes children _ => ?_
  by_cases h : name = target
  · rw [deletion, if_pos h]
    trivial
  · rw [deletion, if_neg h]
    exact h

theorem proper_mapText {f : Text → Text} (hf : ∀ c ∈ ("\"=" : Text), ∀ t, c ∈ f t → c ∈ t) (h : content.Everywhere IsProper) :
    (content.mapText f).Everywhere IsProper := by
  refine h.mapText fun name attributes children hroot => ⟨hroot.1, fun a ha => ?_⟩
  obtain ⟨b, hb, rfl⟩ := List.mem_map.1 ha
  exact isProperAttribute_of_value (hroot.2 b hb) fun c hc hmem => hf c hc b.2 hmem

theorem lacks_mapText (f : Text → Text) (h : content.Lacks target) : (content.mapText f).Lacks target :=
  h.mapText fun _ _ _ h => h

theorem unnested_mapText (f : Text → Text) (h : content.Unnested target) : (content.mapText f).Unnested target :=
  h.mapText fun _ _ _ h heq => lacks_mapText f (h heq)

theorem proper_flattening (h : content.Everywhere IsProper) : (content.reshape flattening).Everywhere IsProper := by
  refine h.reshape fun name attributes children hroot => ?_
  by_cases h : name = "mtext"
  · rw [flattening, if_pos h]
    exact ⟨⟨by decide, fun a ha => absurd ha List.not_mem_nil⟩, trivial, trivial⟩
  · rw [flattening, if_neg h]
    exact hroot

theorem proper_fenceRemoval (h : content.Everywhere IsProper) : (content.reshape fenceRemoval).Everywhere IsProper := by
  refine h.reshape fun name attributes children hroot => ⟨hroot.1, fun a ha => hroot.2 a ?_⟩
  split at ha
  · exact List.mem_of_mem_filter ha
  · exact ha

/-! ### All passes -/

namespace Content

/-- The content without annotations and without the wrappers `semantics` and `mstyle`. -/
def presented (content : Content) : Content :=
  (((content.reshape (deletion "annotation-xml")).reshape (deletion "annotation")).reshape (unwrapping "semantics")).reshape
    (unwrapping "mstyle")

/-- The presented content without invisible operators and with plain spaces. -/
def visible (content : Content) : Content :=
  ((content.presented.reshape invisibleDeletion).mapText dropInvisible).mapText Text.plainSpaces

/-- The visible content with text elements flattened and without fence attributes. -/
def undecorated (content : Content) : Content := (content.visible.reshape flattening).reshape fenceRemoval

/-- The content as it is given to a converter. -/
def cleaned (content : Content) : Content := content.undecorated.reshape declarationRemoval

end Content

theorem presented_write (hproper : content.Everywhere IsProper) (hnotes : content.Unnested "annotation")
    (hxml : content.Unnested "annotation-xml") :
    deleteTags "mstyle" (stripAnnotations content.write) = content.presented.write ∧ content.presented.Everywhere IsProper := by
  have hproper₁ := (removes_deletion "annotation-xml").proper hproper
  have hproper₂ := (removes_deletion "annotation").proper hproper₁
  have hproper₃ := (removes_unwrapping "semantics").proper hproper₂
  have hfirst : deleteElements "annotation-xml" content.write = _ := deleteElements_write (by decide) hproper
    (hproper.mono fun _ _ _ _ _ => by decide) hxml
  -- by now there is no `annotation-xml` left that a search for `annotation` could stop at
  have hsecond : deleteElements "annotation" (content.reshape (deletion "annotation-xml")).write = _ :=
    deleteElements_write (by decide) hproper₁
    ((lacks_deletion "annotation-xml" content).mono fun _ _ _ hne heq => absurd heq hne)
    ((removes_deletion "annotation-xml").unnested hnotes)
  refine ⟨?_, (removes_unwrapping "mstyle").proper hproper₃⟩
  rw [stripAnnotations, hfirst, hsecond, deleteTags_write (by decide) (by decide) hproper₂,
    deleteTags_write (by decide) (by decide) hproper₃]
  rfl

theorem unnested_presented (h : content.Unnested target) : content.presented.Unnested target :=
  (removes_unwrapping "mstyle").unnested ((removes_unwrapping "semantics").unnested
    ((removes_deletion "annotation").unnested ((removes_deletion "annotation-xml").unnested h)))

theorem visible_write (hproper : content.presented.Everywhere IsProper) :
    Text.plainSpaces ((stripInvisibleOperators content.presented.write).substitute (Text.replacing skipNoBreakSpace? " ")) =
        content.visible.write ∧ content.visible.Everywhere IsProper := by
  have hdeleted := removes_invisibleDeletion.proper hproper
  have hdropped : ((content.presented.reshape invisibleDeletion).mapText dropInvisible).Everywhere IsProper :=
    proper_mapText (fun c _ t hmem => List.mem_of_mem_filter hmem) hdeleted
  refine ⟨?_, proper_mapText (fun c hc t hmem => ?_) hdropped⟩
  · rw [stripInvisibleOperators_write hproper hdeleted, substitute_noBreakSpace (escaped_write hdropped),
      charwise_plainSpaces.write hdropped]
    rfl
  · obtain ⟨d, hd, heq⟩ := List.mem_map.1 hmem
    split at heq
    · exact absurd (heq ▸ hc) (by decide)
    · exact heq ▸ hd

theorem undecorated_write (hproper : content.visible.Everywhere IsProper) (hmtext : content.visible.Unnested "mtext") :
    stripFenceAttributes (flattenTextElements content.visible.write) = content.undecorated.write ∧
      content.undecorated.Everywhere IsProper := by
  have hflat := proper_flattening hproper
  refine ⟨?_, proper_fenceRemoval hflat⟩
  rw [flattenTextElements_write hproper hmtext, stripFenceAttributes_write hflat]
  rfl

/-- Cleaning what is written of content gives what is written of the cleaned content. -/
theorem clean_write (hproper : content.Everywhere IsProper) (hnotes : content.Unnested "annotation")
    (hxml : content.Unnested "annotation-xml") (hmtext : content.Unnested "mtext")
    (hquiet : ∀ run ∈ content.undecorated.runs, ¬ ("xmlns" : Text) <:+: run) : clean content.write = content.cleaned.write.trim := by
  obtain ⟨hpresented, hproper₁⟩ := presented_write hproper hnotes hxml
  obtain ⟨hvisible, hproper₂⟩ := visible_write hproper₁
  have hunnested : content.visible.Unnested "mtext" :=
    unnested_mapText _ (unnested_mapText _ (removes_invisibleDeletion.unnested (unnested_presented hmtext)))
  obtain ⟨hundecorated, hproper₃⟩ := undecorated_write hproper₂ hunnested
  have hdeclarations := substitute_namespace hproper₃ hquiet (s := []) (.inl rfl)
  rw [List.append_nil] at hdeclarations
  rw [clean, hpresented, hvisible, hundecorated, hdeclarations, Content.cleaned]
  exact congrArg Text.trim (List.append_nil _)

/--
Cleaning MathML as it is written of a page tree gives what is written of the cleaned tree, white space at the two ends
aside, which is trimmed.
-/
theorem clean_write_tree {node : Node} (hnode : isElementTree node = true)
    (hnotes : (Content.ofNodes [node]).Unnested "annotation") (hxml : (Content.ofNodes [node]).Unnested "annotation-xml")
    (hmtext : (Content.ofNodes [node]).Unnested "mtext")
    (hquiet : ∀ run ∈ (Content.ofNodes [node]).undecorated.runs, ¬ ("xmlns" : Text) <:+: run) :
    clean node.write = (Content.ofNodes [node]).cleaned.write.trim := by
  have hnodes : areElementTrees [node] = true := Bool.and_eq_true_iff.2 ⟨hnode, rfl⟩
  have hwrite : node.write = (Content.ofNodes [node]).write := by
    have hwritten : (Content.ofNodes [node]).write = writeNodesIn [] [node] := write_ofNodes (by decide) [node] hnodes
    rw [hwritten, writeNodesIn, writeNodesIn, List.append_nil, Node.write]
  rw [hwrite]
  exact clean_write (proper_ofNodes [node] hnodes) hnotes hxml hmtext hquiet

/-- A call as a converter of formulas writes it: declared, annotated, with an invisible operator and a text of its own. -/
def annotatedCall : Node :=
  .element "math" [("xmlns", mathmlNamespace)] [.element "semantics" [] [
    .element "mrow" [] [.element "mi" [] [.text .plain "f"], .element "mo" [] [.text .plain "\u2061"],
      .element "mo" [("stretchy", "false")] [.text .plain "("],
      .element "mstyle" [] [.element "mtext" [] [.text .plain "x\u00A0<\u200By"]], .element "mo" [] [.text .plain ")"]],
    .element "annotation" [("encoding", "application/x-tex")] [.text .plain "f(x<y)"]]]

theorem clean_write_annotatedCall :
    (isElementTree annotatedCall = true ∧ (Content.ofNodes [annotatedCall]).Unnested "annotation" ∧
      (Content.ofNodes [annotatedCall]).Unnested "annotation-xml" ∧ (Content.ofNodes [annotatedCall]).Unnested "mtext" ∧
      ∀ run ∈ (Content.ofNodes [annotatedCall]).undecorated.runs, ¬ ("xmlns" : Text) <:+: run) ∧
    clean annotatedCall.write = (Content.ofNodes [annotatedCall]).cleaned.write.trim ∧
    (Content.ofNodes [annotatedCall]).cleaned.write.trim =
      "<math><mrow><mi>f</mi><mo>(</mo><mi>x &lt;y</mi><mo>)</mo></mrow></math>" :=
  have hnode : isElementTree annotatedCall = true := by decide +kernel
  have hnotes : (Content.ofNodes [annotatedCall]).Unnested "annotation" := by decide +kernel
  have hxml : (Content.ofNodes [annotatedCall]).Unnested "annotation-xml" := by decide +kernel
  have hmtext : (Content.ofNodes [annotatedCall]).Unnested "mtext" := by decide +kernel
  have hquiet : ∀ run ∈ (Content.ofNodes [annotatedCall]).undecorated.runs, ¬ ("xmlns" : Text) <:+: run := by decide +kernel
  ⟨⟨hnode, hnotes, hxml, hmtext, hquiet⟩, clean_write_tree hnode hnotes hxml hmtext hquiet, by decide +kernel⟩

/-- Two texts, neither of which has the name of a declaration in it, with a tag between them that is unwrapped. -/
def splitDeclaration : Node :=
  .element "math" [] [.text .plain " xml", .element "mstyle" [] [.text .plain "ns=\"http://www.w3.org/1998/Math/MathML\""]]

/-- It is not enough that no text of the tree has the name of a declaration in it: texts that come together are dropped as one. -/
theorem clean_write_splitDeclaration :
    (isElementTree splitDeclaration = true ∧ (Content.ofNodes [splitDeclaration]).Unnested "annotation" ∧
      (Content.ofNodes [splitDeclaration]).Unnested "annotation-xml" ∧ (Content.ofNodes [splitDeclaration]).Unnested "mtext" ∧
      ∀ run ∈ (Content.ofNodes [splitDeclaration]).runs, ¬ ("xmlns" : Text) <:+: run) ∧
    clean splitDeclaration.write = "<math></math>" ∧
    clean splitDeclaration.write ≠ (Content.ofNodes [splitDeclaration]).cleaned.write.trim := by decide +kernel

end EquationExport.Mathml
