import EquationExport.Proofs.Xml.Legal
import EquationExport.Proofs.Xml.Written

/-!
# Tags that are well-formed

A tag that is read and resolved has proper names and legal values, none of its attributes is a declaration, and no
two of them have one name.
-/

namespace EquationExport.Xml

/-- The tag has proper names and legal values, and its attributes are told by their names. -/
structure Tag.IsWellFormed (tag : Tag) : Prop where
  name : isQualifiedName tag.name.parts = true
  attributes : tag.attributes.all (·.isReadable) = true
  /-- No attribute is a declaration. -/
  plain : ∀ a ∈ tag.attributes, declared? a.name.parts = none
  distinct : distinctBy (fun a : Attribute => (a.name.space, a.name.localPart)) tag.attributes = true

/-! ### Setting an attribute -/

variable {tag : Tag} {name : Name} {value : Text}

/-- An attribute of a tag with one attribute set: one of before, or one with the value under an old name or the new one. -/
theorem Tag.mem_setAttribute {a : Attribute} (h : a ∈ (tag.setAttribute name value).attributes) :
    a ∈ tag.attributes ∨ (a.value = value ∧ (a.name = name ∨ ∃ b ∈ tag.attributes, b.name = a.name)) := by
  unfold Tag.setAttribute at h
  split at h
  · obtain ⟨b, hb, rfl⟩ := List.mem_map.1 h
    split
    · exact .inr ⟨rfl, .inr ⟨b, hb, rfl⟩⟩
    · exact .inl hb
  · rcases List.mem_append.1 h with h | h
    · exact .inl h
    · obtain rfl := List.mem_singleton.1 h
      exact .inr ⟨rfl, .inl rfl⟩

/-- Setting an attribute to a value twice does what setting it once does. -/
theorem Tag.setAttribute_setAttribute (tag : Tag) (name : Name) (value : Text) :
    (tag.setAttribute name value).setAttribute name value = tag.setAttribute name value := by
  by_cases hany : tag.attributes.any (·.name.same name) = true
  · have hset : tag.setAttribute name value =
        { tag with attributes := tag.attributes.map fun a => if a.name.same name then ⟨a.name, value⟩ else a } := by
      rw [Tag.setAttribute, if_pos hany]
    have hkey : ∀ a : Attribute, (if a.name.same name then (⟨a.name, value⟩ : Attribute) else a).name = a.name := by
      intro a
      split <;> rfl
    rw [hset, Tag.setAttribute, if_pos (by simpa only [List.any_map, Function.comp_def, hkey] using hany)]
    congr 1
    rw [List.map_map]
    refine List.map_congr_left fun a _ => ?_
    simp only [Function.comp_apply, hkey]
    split <;> rfl
  · have hset : tag.setAttribute name value = { tag with attributes := tag.attributes ++ [⟨name, value⟩] } := by
      rw [Tag.setAttribute, if_neg hany]
    have hself : name.same name = true := by simp [Name.same]
    rw [hset, Tag.setAttribute, if_pos (by simp [hself])]
    congr 1
    rw [List.map_append, List.map_singleton, if_pos hself]
    congr 1
    refine (List.map_congr_left fun a ha => ?_).trans (List.map_id _)
    rw [if_neg fun hname => hany (List.any_eq_true.2 ⟨a, ha, hname⟩)]
    rfl

/-- What is set is there. -/
theorem Tag.attribute?_setAttribute (tag : Tag) (name : Name) (value : Text) :
    (tag.setAttribute name value).attribute? name = some value := by
  have hself : name.same name = true := by simp [Name.same]
  unfold Tag.setAttribute Tag.attribute?
  split
  · next hany =>
    obtain ⟨a, hfind⟩ := Option.isSome_iff_exists.1 (List.find?_isSome.2 (List.any_eq_true.1 hany))
    have hkey : ∀ b : Attribute, (if b.name.same name then (⟨b.name, value⟩ : Attribute) else b).name = b.name := by
      intro b
      split <;> rfl
    have hsame : a.name.same name = true := by simpa using List.find?_some hfind
    simp only [List.find?_map, Function.comp_def, hkey, hfind, Option.map_some, if_pos hsame]
  · next hany =>
    have hnone : tag.attributes.find? (·.name.same name) = none :=
      List.find?_eq_none.2 fun a ha hsame => hany (List.any_eq_true.2 ⟨a, ha, hsame⟩)
    rw [List.find?_append, hnone, List.find?_singleton, if_pos hself]
    rfl

/-- Setting an attribute leaves the others. -/
theorem Tag.attribute?_setAttribute_of_ne {other : Name} (hne : name.same other = false) (tag : Tag) (value : Text) :
    (tag.setAttribute name value).attribute? other = tag.attribute? other := by
  have hother : ∀ a : Attribute, a.name.same name = true → a.name.same other = false := by
    intro a ha
    simp only [Name.same, Bool.and_eq_true, beq_iff_eq] at ha hne ⊢
    rw [ha.1, ha.2, hne]
  unfold Tag.setAttribute
  split
  · rw [Tag.attribute?, Tag.attribute?]
    induction tag.attributes with
    | nil => rfl
    | cons a l ih =>
      rw [List.map_cons, List.find?_cons, List.find?_cons]
      cases hname : a.name.same name with
      | true => simpa only [if_true, hother a hname] using ih
      | false =>
        simp only [Bool.false_eq_true, if_false]
        cases a.name.same other with
        | true => rfl
        | false => exact ih
  · rw [Tag.attribute?, Tag.attribute?, List.find?_append, List.find?_cons, hne]
    simp

theorem distinctBy_map {α β : Type} [BEq β] {key : α → β} {f : α → α} (hf : ∀ a, key (f a) = key a) (l : List α) :
    distinctBy key (l.map f) = distinctBy key l := by
  induction l with
  | nil => rfl
  | cons a l ih => simp only [List.map_cons, distinctBy, ih, List.any_map, Function.comp_def, hf]

theorem distinctBy_concat {α β : Type} [BEq β] {key : α → β} {l : List α} {x : α} (hl : distinctBy key l = true)
    (hx : ∀ a ∈ l, (key x == key a) = false) : distinctBy key (l ++ [x]) = true := by
  induction l with
  | nil => rfl
  | cons a l ih =>
    obtain ⟨ha, hrest⟩ := Bool.and_eq_true_iff.1 hl
    rw [List.cons_append, distinctBy, ih hrest fun b hb => hx b (List.mem_cons_of_mem _ hb), Bool.and_true, List.any_append]
    rw [Bool.not_eq_true'] at ha ⊢
    simp [ha, hx a List.mem_cons_self]

/-- A well-formed tag stays so with an attribute set. -/
theorem Tag.IsWellFormed.setAttribute (h : tag.IsWellFormed) (hname : isQualifiedName name.parts = true)
    (hplain : declared? name.parts = none) (hvalue : isLegal value = true) : (tag.setAttribute name value).IsWellFormed where
  name := by
    rw [Node.Tag.name_setAttribute]
    exact h.name
  attributes := List.all_eq_true.2 fun a ha => by
    have hold := List.all_eq_true.1 h.attributes
    rcases Tag.mem_setAttribute ha with ha | ⟨rfl, hnew | ⟨b, hb, hnew⟩⟩
    · exact hold a ha
    · rw [Attribute.isReadable, hnew, hname, hvalue]
      rfl
    · rw [Attribute.isReadable, ← hnew, (Bool.and_eq_true_iff.1 (hold b hb)).1, hvalue]
      rfl
  plain := fun a ha => by
    rcases Tag.mem_setAttribute ha with ha | ⟨-, hnew | ⟨b, hb, hnew⟩⟩
    · exact h.plain a ha
    · rw [hnew, hplain]
    · rw [← hnew, h.plain b hb]
  distinct := by
    unfold Tag.setAttribute
    split
    · refine (distinctBy_map (fun a => ?_) tag.attributes).trans h.distinct
      split <;> rfl
    · next hnone =>
      refine distinctBy_concat h.distinct fun a ha => beq_eq_false_iff_ne.2 fun heq => hnone (List.any_eq_true.2 ⟨a, ha, ?_⟩)
      obtain ⟨hspace, hlocal⟩ := Prod.mk.inj heq
      simp [Name.same, ← hspace, ← hlocal]

/-! ### Values -/

theorem isLegal_valueText? {s v : Text} (h : valueText? s = some v) : isLegal v = true := by
  unfold valueText? at h
  split at h
  · next hs =>
    have hlegal := isLegal_iff.1 (isLegal_normalizeLineEnds (Bool.and_eq_true_iff.1 hs).1)
    obtain rfl := Option.some.inj h
    refine isLegal_iff.2 fun c hc => ?_
    obtain ⟨d, hd, rfl⟩ := List.mem_map.1 hc
    split
    · decide
    · exact hlegal d hd
  · cases h

theorem isLegal_valuePiece? {s v : Text} (h : valuePiece? s = some v) : isLegal v = true := by
  unfold valuePiece? at h
  split at h
  · next c rest hc =>
    obtain ⟨t, ht, rfl⟩ := Option.map_eq_some_iff.1 h
    rw [isLegal, List.all_cons, isXml_reference? hc, Bool.true_and]
    exact isLegal_valueText? ht
  · cases h

/-- All results of a function that may fail have what each of them has. -/
theorem forall_of_mapM {α β : Type} {f : α → Option β} {Q : β → Prop} {l : List α} {results : List β}
    (h : l.mapM f = some results) (hf : ∀ a ∈ l, ∀ b, f a = some b → Q b) : ∀ b ∈ results, Q b := by
  induction l generalizing results with
  | nil =>
    obtain rfl : results = [] := by simpa using h.symm
    exact fun b hb => by cases hb
  | cons a l ih =>
    rw [List.mapM_cons] at h
    obtain ⟨b, hb, h⟩ := Option.bind_eq_some_iff.1 h
    obtain ⟨bs, hbs, h⟩ := Option.bind_eq_some_iff.1 h
    obtain rfl : b :: bs = results := Option.some.inj h
    intro x hx
    rcases List.mem_cons.1 hx with rfl | hx
    · exact hf a List.mem_cons_self x hb
    · exact ih hbs (fun a ha => hf a (List.mem_cons_of_mem _ ha)) x hx

theorem isLegal_value? {s v : Text} (h : value? s = some v) : isLegal v = true := by
  unfold value? at h
  split at h
  · obtain rfl := Option.some.inj h
    rfl
  · next first pieces _ =>
    obtain ⟨u, hu, h⟩ := Option.bind_eq_some_iff.1 h
    obtain ⟨us, hus, h⟩ := Option.bind_eq_some_iff.1 h
    obtain rfl := Option.some.inj h
    refine isLegal_append.2 ⟨isLegal_valueText? hu, isLegal_iff.2 fun c hc => ?_⟩
    obtain ⟨piece, hpiece, hc⟩ := List.mem_flatten.1 hc
    exact isLegal_iff.1 (forall_of_mapM hus (fun _ _ _ => isLegal_valuePiece?) piece hpiece) c hc

/-! ### Tags -/

/-- An attribute as it is written, with a proper name and a legal value. -/
def isReadableWritten (written : WrittenName × Text) : Bool := isQualifiedName written.1 && isLegal written.2

theorem isReadable_attribute? {s rest : Text} {written : WrittenName × Text} (h : attribute? s = some (written, rest)) :
    isReadableWritten written = true := by
  obtain ⟨⟨name, behind⟩, hname, h⟩ := Option.bind_eq_some_iff.1 h
  obtain ⟨equals, -, h⟩ := Option.bind_eq_some_iff.1 h
  obtain ⟨⟨quote, inside⟩, -, h⟩ := Option.bind_eq_some_iff.1 h
  obtain ⟨⟨text, behind'⟩, -, h⟩ := Option.bind_eq_some_iff.1 h
  obtain ⟨value, hvalue, h⟩ := Option.bind_eq_some_iff.1 h
  obtain ⟨rfl, -⟩ := Prod.mk.inj (Option.some.inj h)
  exact Bool.and_eq_true_iff.2 ⟨isQualifiedName_of_qualifiedName? hname, isLegal_value? hvalue⟩

theorem isReadable_attributes? {fuel : Nat} {s rest : Text} {attributes : List (WrittenName × Text)} {closed : Bool}
    (h : attributes? fuel s = some ((attributes, closed), rest)) : attributes.all isReadableWritten = true := by
  induction fuel generalizing s attributes closed rest with
  | zero => cases h
  | succ fuel ih =>
    unfold attributes? at h
    dsimp only at h
    split at h
    · obtain ⟨⟨rfl, -⟩, -⟩ := by simpa using h
      rfl
    · obtain ⟨⟨rfl, -⟩, -⟩ := by simpa using h
      rfl
    · split at h
      · obtain ⟨⟨first, behind⟩, hfirst, h⟩ := Option.bind_eq_some_iff.1 h
        obtain ⟨⟨⟨others, closed'⟩, behind'⟩, hothers, h⟩ := Option.bind_eq_some_iff.1 h
        obtain ⟨⟨rfl, -⟩, -⟩ := by simpa using h
        rw [List.all_cons, isReadable_attribute? hfirst, ih hothers]
        rfl
      · cases h

/-- A name that is resolved is written as it was. -/
theorem parts_of_elementName? {scope : Scope} {written : WrittenName} {name : Name}
    (h : elementName? scope written = some name) : name.parts = written := by
  obtain ⟨qualifier, localPart⟩ := written
  cases qualifier with
  | none =>
    obtain rfl := Option.some.inj h
    rfl
  | some q =>
    obtain ⟨space, -, rfl⟩ := Option.map_eq_some_iff.1 h
    rfl

theorem parts_of_attributeName? {scope : Scope} {written : WrittenName} {name : Name}
    (h : attributeName? scope written = some name) : name.parts = written := by
  obtain ⟨qualifier, localPart⟩ := written
  cases qualifier with
  | none =>
    obtain rfl := Option.some.inj h
    rfl
  | some q =>
    obtain ⟨space, -, rfl⟩ := Option.map_eq_some_iff.1 h
    rfl

/-- A tag that is read and resolved is well-formed. -/
theorem holdsOfTags_isWellFormed : HoldsOfTags Tag.IsWellFormed := by
  intro s written rest scope tag inner hread hresolve
  obtain ⟨⟨name, behind⟩, hname, hread⟩ := Option.bind_eq_some_iff.1 hread
  obtain ⟨⟨⟨attributes, closed⟩, behind'⟩, hattributes, hread⟩ := Option.bind_eq_some_iff.1 hread
  obtain ⟨rfl, -⟩ := Prod.mk.inj (Option.some.inj hread)
  have hreadable := List.all_eq_true.1 (isReadable_attributes? hattributes)
  unfold resolve? at hresolve
  dsimp only at hresolve
  split at hresolve
  · cases hresolve
  · obtain ⟨element, helement, hresolve⟩ := Option.bind_eq_some_iff.1 hresolve
    obtain ⟨resolved, hresolved, hresolve⟩ := Option.bind_eq_some_iff.1 hresolve
    split at hresolve
    · next hdistinct =>
      obtain ⟨rfl, -⟩ := Prod.mk.inj (Option.some.inj hresolve)
      have hall : ∀ a ∈ resolved, a.isReadable = true ∧ declared? a.name.parts = none := by
        refine forall_of_mapM hresolved ?_
        rintro ⟨written, value⟩ hmem a ha
        obtain ⟨hmem, hplain⟩ := List.mem_filter.1 hmem
        obtain ⟨attributeName, hattribute, rfl⟩ := Option.map_eq_some_iff.1 ha
        rw [Attribute.isReadable, parts_of_attributeName? hattribute]
        exact ⟨hreadable _ hmem, by simpa using hplain⟩
      refine ⟨?_, List.all_eq_true.2 fun a ha => (hall a ha).1, fun a ha => (hall a ha).2, hdistinct⟩
      rw [parts_of_elementName? helement]
      exact isQualifiedName_of_qualifiedName? hname
    · cases hresolve

end EquationExport.Xml
