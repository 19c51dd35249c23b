import EquationExport.Proofs.Omml.Declaration
import EquationExport.Proofs.Xml.WellFormed

/-!
# Trees without declarations

A fragment is written as its trees without their declarations are, if in all of it nothing but declarations reads
like one.
-/

namespace EquationExport.Omml

open Xml Xml.Node

/-! ### Tags -/

/-- The names on the tag hold no white space, and the qualifiers that it declares are words. -/
def hasClearNames (tag : Tag) : Bool :=
  isUnspaced tag.name.written && tag.attributes.all (fun a => isUnspaced a.name.written) &&
    tag.declarations.all (·.qualifier.all isOneWord)

/-- No text at the node reads like the front of a declaration, nor does a value with its quote. -/
def isQuiet (node : Node) : Bool :=
  !announces (node.text?.getD []) && !announces node.tail &&
    ((node.tag?.map (·.attributes)).getD []).all fun a => !announces (a.value ++ [('"' : CodePoint)])

/-- The tag without its declarations. -/
def undeclaredTag (tag : Tag) : Tag := { tag with declarations := [] }

variable {tag : Tag} {s : Text} {l : List Node}

theorem not_mem_of_isName {t : Text} {c : CodePoint} (h : isName t = true) (hc : c.isNamePart = false) : c ∉ t := by
  obtain ⟨-, -, -, -, hall⟩ := exists_cons_of_isName h
  intro hmem
  rw [hall c hmem] at hc
  cases hc

/-- What is no declaration is not written like one. -/
theorem written_ne_of_declared? {name : Name} (hname : isQualifiedName name.parts = true)
    (hplain : declared? name.parts = none) {qualifier : Text}
    (hqualifier : IsQualifier qualifier) :
    name.written ≠ "xmlns" ++ qualifier := by
  intro heq
  obtain ⟨hq, hlocal⟩ := Bool.and_eq_true_iff.1 hname
  obtain ⟨q, space, localPart⟩ := name
  have hcolon : (':' : CodePoint) ∉ localPart := not_mem_of_isName hlocal (by decide)
  cases q with
  | none =>
    rcases hqualifier with rfl | ⟨w, rfl, -⟩
    · obtain rfl : localPart = "xmlns" := heq.trans (List.append_nil _)
      cases hplain
    · obtain rfl : localPart = ("xmlns" : Text) ++ ((":" : Text) ++ w) := heq
      exact hcolon (List.mem_append_right _ List.mem_cons_self)
  | some q =>
    have hcolonq : (':' : CodePoint) ∉ q := not_mem_of_isName (by simpa using hq) (by decide)
    have hwritten : (Name.mk (some q) space localPart).written = q ++ (':' : CodePoint) :: localPart := by
      simp [Name.written]
      rfl
    rw [hwritten] at heq
    rcases hqualifier with rfl | ⟨w, rfl, -⟩
    · have hmem : (':' : CodePoint) ∈ ("xmlns" : Text) := by
        rw [← List.append_nil ("xmlns" : Text), ← heq]
        simp
      exact absurd hmem (by decide)
    · obtain ⟨rfl, -⟩ := Text.append_cons_inj heq hcolonq (by decide)
      cases hplain

theorem equals_not_mem_written {name : Name} (hname : isQualifiedName name.parts = true) : ('=' : CodePoint) ∉ name.written := by
  obtain ⟨hq, hlocal⟩ := Bool.and_eq_true_iff.1 hname
  obtain ⟨qualifier, space, localPart⟩ := name
  have hnotLocal : ('=' : CodePoint) ∉ localPart := not_mem_of_isName hlocal (by decide)
  cases qualifier with
  | none => exact hnotLocal
  | some q =>
    have hnotq : ('=' : CodePoint) ∉ q := not_mem_of_isName (by simpa using hq) (by decide)
    simp only [Name.written, List.mem_append, not_or]
    exact ⟨⟨hnotq, by decide⟩, hnotLocal⟩

theorem equals_not_mem_qualifier {qualifier : Text} (h : IsQualifier qualifier) : ('=' : CodePoint) ∉ qualifier := by
  rcases h with rfl | ⟨q, rfl, hq⟩
  · exact List.not_mem_nil
  · obtain ⟨-, -, -, hword⟩ := isWord_of_isOneWord hq
    rw [List.mem_append, not_or]
    exact ⟨by decide, fun hmem => absurd (hword _ hmem) (by decide)⟩

/-- An attribute that is no declaration is not taken for one. -/
theorem skipDeclaration?_attribute {a : Attribute} (hname : isQualifiedName a.name.parts = true)
    (hplain : declared? a.name.parts = none) (hclear : isUnspaced a.name.written = true) (rest : Text) :
    skipDeclaration? ((' ' : CodePoint) :: (a.name.written ++ ("=\"" ++ rest))) = none := by
  refine skipDeclaration?_eq_none fun opening hopening hprefix => ?_
  obtain ⟨space, qualifier, rfl, hne, hall, hqualifier⟩ := hopening
  obtain ⟨more, hmore⟩ := hprefix
  cases space with
  | nil => exact hne rfl
  | cons c space =>
    simp only [List.cons_append, List.append_assoc] at hmore
    obtain ⟨-, hmore⟩ := List.cons.inj hmore
    -- behind the space the name itself starts
    obtain ⟨d, name, hwritten, -⟩ := exists_cons_of_written hname
    cases space with
    | cons x space =>
      rw [hwritten] at hmore hclear
      obtain ⟨rfl, -⟩ := List.cons.inj hmore
      have hx := List.all_eq_true.1 hclear x List.mem_cons_self
      rw [hall x (by simp)] at hx
      cases hx
    | nil =>
      have hequals : ∀ t u : Text, t ++ (("=\"" : Text) ++ u) = t ++ ('=' : CodePoint) :: (('"' : CodePoint) :: u) :=
        fun _ _ => rfl
      have hnotOpening : ('=' : CodePoint) ∉ ("xmlns" : Text) ++ qualifier := by
        rw [List.mem_append, not_or]
        exact ⟨by decide, equals_not_mem_qualifier hqualifier⟩
      rw [List.nil_append, ← List.append_assoc ("xmlns" : Text), hequals, hequals] at hmore
      exact written_ne_of_declared? hname hplain hqualifier
        (Text.append_cons_inj hmore hnotOpening (equals_not_mem_written hname)).1.symm

theorem dropDeclarations_attribute {a : Attribute} (hname : isQualifiedName a.name.parts = true)
    (hplain : declared? a.name.parts = none) (hclear : isUnspaced a.name.written = true)
    (hvalue : announces (a.value ++ [('"' : CodePoint)]) = false) (s : Text) :
    dropDeclarations (a.write ++ s) = a.write ++ dropDeclarations s := by
  have hquote : dropDeclarations (('"' : CodePoint) :: s) = ('"' : CodePoint) :: dropDeclarations s :=
    dropDeclarations_unspaced (b := [('"' : CodePoint)]) (by decide) s
  rw [write_attribute_append, dropDeclarations_cons (skipDeclaration?_attribute hname hplain hclear _),
    dropDeclarations_unspaced hclear, dropDeclarations_unspaced (b := ("=\"" : Text)) (by decide),
    dropDeclarations_value hvalue, hquote, write_attribute_append]

/-- Out of a tag the declarations are taken. -/
theorem dropDeclarations_tag (htag : tag.IsWellFormed) (hclear : hasClearNames tag = true)
    (hvalues : ∀ a ∈ tag.attributes, announces (a.value ++ [('"' : CodePoint)]) = false) (s : Text) :
    dropDeclarations (tag.write ++ s) = (undeclaredTag tag).write ++ dropDeclarations s := by
  simp only [hasClearNames, Bool.and_eq_true, List.all_eq_true] at hclear
  obtain ⟨⟨hclearName, hclearAttributes⟩, hqualifiers⟩ := hclear
  have hdeclarations : ∀ (ds : List Declaration) (s : Text), (∀ d ∈ ds, d.qualifier.all isOneWord = true) →
      dropDeclarations (ds.flatMap (·.write) ++ s) = dropDeclarations s := by
    intro ds s hds
    induction ds with
    | nil => rfl
    | cons d ds ih =>
      rw [List.flatMap_cons, List.append_assoc, dropDeclarations_declaration (hds d List.mem_cons_self),
        ih fun d' hd' => hds d' (List.mem_cons_of_mem _ hd')]
  have hattributes : ∀ (as : List Attribute) (s : Text), (∀ a ∈ as, a ∈ tag.attributes) →
      dropDeclarations (as.flatMap (·.write) ++ s) = as.flatMap (·.write) ++ dropDeclarations s := by
    intro as s has
    induction as with
    | nil => rfl
    | cons a as ih =>
      have ha := has a List.mem_cons_self
      have hname := (Bool.and_eq_true_iff.1 (List.all_eq_true.1 htag.attributes a ha)).1
      rw [List.flatMap_cons, List.append_assoc,
        dropDeclarations_attribute hname (htag.plain a ha) (hclearAttributes a ha) (hvalues a ha),
        ih fun b hb => has b (List.mem_cons_of_mem _ hb), List.append_assoc]
  have hwrite : (undeclaredTag tag).write = tag.name.written ++ tag.attributes.flatMap (·.write) := by
    rw [Tag.write, undeclaredTag, List.flatMap_nil, List.append_nil]
  rw [Tag.write, hwrite, List.append_assoc, List.append_assoc, dropDeclarations_unspaced hclearName,
    hdeclarations _ _ hqualifiers, hattributes _ _ fun _ ha => ha, List.append_assoc]

/-! ### Trees -/

mutual

/-- The tree without its declarations. -/
def undeclared : Node → Node
  | .element tag text children tail => .element (undeclaredTag tag) text (undeclareds children) tail
  | .comment content tail => .comment content tail
  | .instruction target content tail => .instruction target content tail

/-- Several trees without their declarations. -/
def undeclareds : List Node → List Node
  | [] => []
  | node :: rest => undeclared node :: undeclareds rest

end

theorem heights_undeclareds (l : List Node) : heights (undeclareds l) = heights l := by
  induction l using forest_induction with
  | nil => rfl
  | element tag text children tail rest ihc ihr => simp only [undeclareds, undeclared, heights, Node.height, ihc, ihr]
  | comment content tail rest ih | instruction target content tail rest ih =>
    simp only [undeclareds, undeclared, heights, Node.height, ih]

/-- What holds of every node holds without the declarations, if it goes over from one node to the other. -/
theorem everywhere_undeclareds {P Q : Node → Prop} (hPQ : ∀ n, P n → Q (undeclared n)) :
    Everywhere P l → Everywhere Q (undeclareds l) := by
  induction l using forest_induction with
  | nil => exact fun _ => everywhere_nil
  | element tag text children tail rest ihc ihr =>
    intro h
    obtain ⟨hnode, hrest⟩ := everywhere_cons.1 h
    obtain ⟨hroot, hbelow⟩ := everywhere_singleton.1 hnode
    exact everywhere_cons.2 ⟨everywhere_singleton.2 ⟨hPQ _ hroot, ihc hbelow⟩, ihr hrest⟩
  | comment content tail rest ih | instruction target content tail rest ih =>
    intro h
    obtain ⟨hnode, hrest⟩ := everywhere_cons.1 h
    exact everywhere_cons.2 ⟨everywhere_singleton.2 ⟨hPQ _ (everywhere_singleton.1 hnode).1, everywhere_nil⟩, ih hrest⟩

/-- An element out of which its declarations alone are taken. -/
def IsClear (node : Node) : Prop :=
  (∃ tag, node.tag? = some tag ∧ tag.IsWellFormed ∧ hasClearNames tag = true) ∧ isQuiet node = true

/-- Out of neighbours with what follows each, and in front of markup, the declarations are taken. -/
def DropsDeclarations (l : List Node) : Prop :=
  ∀ s, dropDeclarations (writeNodes l ++ ('<' : CodePoint) :: s) =
    writeNodes (undeclareds l) ++ dropDeclarations (('<' : CodePoint) :: s)

theorem dropDeclarations_element {text : Option Text} {children : List Node} {tail : Text}
    (hclear : IsClear (element tag text children tail)) (hchildren : DropsDeclarations children) (s : Text) :
    dropDeclarations ((element tag text children tail).write ++ s) =
      (undeclared (element tag text children tail)).write ++ dropDeclarations s := by
  obtain ⟨⟨_, htag, hwell, hnames⟩, hquiet⟩ := hclear
  obtain rfl := Option.some.inj htag
  simp only [isQuiet, Node.text?, Bool.and_eq_true, Bool.not_eq_true', List.all_eq_true] at hquiet
  obtain ⟨⟨htext, -⟩, hvalues⟩ := hquiet
  have hunspaced : ∀ (b : Text) (s : Text), isUnspaced b = true → dropDeclarations (b ++ s) = b ++ dropDeclarations s :=
    fun b s hb => dropDeclarations_unspaced hb s
  have hname : isUnspaced tag.name.written = true := by
    simp only [hasClearNames, Bool.and_eq_true] at hnames
    exact hnames.1.1
  have htagWrite := dropDeclarations_tag hwell hnames hvalues
  have hempty : (undeclareds children).isEmpty = children.isEmpty := by cases children <;> rfl
  rw [undeclared, Node.write, Node.write, hempty]
  split
  · simp only [List.append_assoc]
    rw [hunspaced "<" _ (by decide), htagWrite, hunspaced "/>" _ (by decide)]
  · have hclosing : ∀ s : Text, ("</" : Text) ++ s = ('<' : CodePoint) :: (("/" : Text) ++ s) := fun _ => rfl
    obtain ⟨front, hfront⟩ := exists_cons_of_writeNodes children (("/" : Text) ++ (tag.name.written ++ (">" ++ s)))
    have hend : dropDeclarations (("</" : Text) ++ (tag.name.written ++ (">" ++ s))) =
        ("</" : Text) ++ (tag.name.written ++ (">" ++ dropDeclarations s)) := by
      rw [hunspaced "</" _ (by decide), hunspaced _ _ hname, hunspaced ">" _ (by decide)]
    have hnodes := hchildren (("/" : Text) ++ (tag.name.written ++ (">" ++ s)))
    rw [← hclosing, hend] at hnodes
    rw [← hclosing] at hfront
    simp only [List.append_assoc]
    rw [hunspaced "<" _ (by decide), htagWrite, hunspaced ">" _ (by decide), hfront, dropDeclarations_text htext, ← hfront,
      hnodes]
    rfl

theorem dropsDeclarations (l : List Node) : Everywhere IsClear l → DropsDeclarations l := by
  induction l using forest_induction with
  | nil => exact fun _ s => rfl
  | element tag text children tail rest ihc ihr =>
    intro h s
    obtain ⟨hnode, hrest⟩ := everywhere_cons.1 h
    obtain ⟨hroot, hbelow⟩ := everywhere_singleton.1 hnode
    obtain ⟨front, hfront⟩ := exists_cons_of_writeNodes rest s
    have htail : announces tail = false := by
      have hquiet := hroot.2
      simp only [isQuiet, Bool.and_eq_true, Bool.not_eq_true'] at hquiet
      exact hquiet.1.2
    simp only [undeclareds, writeNodes, List.append_assoc]
    rw [dropDeclarations_element hroot (ihc hbelow), hfront]
    simp only [Node.tail]
    rw [dropDeclarations_text htail, ← hfront, ihr hrest s]
    rfl
  | comment content tail rest ih | instruction target content tail rest ih =>
    intro h
    obtain ⟨⟨_, htag, -⟩, -⟩ := (everywhere_singleton.1 (everywhere_cons.1 h).1).1
    cases htag

/-- A fragment is written as its trees without their declarations are. -/
theorem dropDeclarations_flatMap_write : ∀ l : List Node, Everywhere IsClear l →
    dropDeclarations (l.flatMap (·.write)) = (undeclareds l).flatMap (·.write)
  | [], _ => rfl
  | .element tag text children tail :: rest, h => by
    obtain ⟨hnode, hrest⟩ := everywhere_cons.1 h
    obtain ⟨hroot, hbelow⟩ := everywhere_singleton.1 hnode
    rw [List.flatMap_cons, dropDeclarations_element hroot (dropsDeclarations children hbelow),
      dropDeclarations_flatMap_write rest hrest, undeclareds, List.flatMap_cons]
  | .comment content tail :: rest, h | .instruction target content tail :: rest, h => by
    obtain ⟨⟨_, htag, -⟩, -⟩ := (everywhere_singleton.1 (everywhere_cons.1 h).1).1
    cases htag

end EquationExport.Omml
