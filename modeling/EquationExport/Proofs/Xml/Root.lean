import EquationExport.Proofs.Xml.Nesting

/-!
# The root of a document

A document is a prolog, the opening tag of the root, and what follows it: the content of the root with its closing tag,
unless the opening tag closes itself, and behind the root nothing but white space, comments and instructions. What a
prolog is stays open, as nothing here looks into it.

An attribute can be put behind those of an opening tag, if the tag does not close itself: the tag is read as before, with
one attribute more.
-/

namespace EquationExport.Xml

variable {s rest added : Text} {tag : WrittenTag} {extra : WrittenName × Text}
  {attributes : List (WrittenName × Text)}

/-! ### Documents -/

/-- White space, a comment or an instruction. -/
def Token.IsMisc (token : Token) : Prop :=
  (∃ t : Text, token = .literal t ∧ t.all (·.isBlank) = true) ∨ ∃ n, token = .note n

/-- What follows the opening tag of the root, up to the end of the document. -/
def EndsDocument (tag : WrittenTag) (rest : Text) : Prop :=
  ∃ l, Closes (if tag.closed then [] else [tag.name]) rest l ∧ ∀ token, (0, token) ∈ l → token.IsMisc ∨ token = .closing tag.name

/-- A well-formed document: the prolog `front`, the opening tag of the root behind its bracket, and the rest. -/
structure IsDocument (prolog : Text → Prop) (document front opening rest : Text) (tag : WrittenTag) : Prop where
  eq : document = front ++ CodePoint.ofChar '<' :: (opening ++ rest)
  prolog : prolog front
  opening : openingTag? (opening ++ rest) = some (tag, rest)
  distinct : (tag.attributes.map (·.1)).Nodup
  rear : EndsDocument tag rest

/-- The opening tag of a document is read in one way. -/
theorem IsDocument.unique {prolog : Text → Prop} {document front opening opening' : Text} {tag' : WrittenTag}
    (h : IsDocument prolog document front opening rest tag) (h' : IsDocument prolog document front opening' rest tag') :
    opening = opening' ∧ tag = tag' := by
  have heq := h.eq.symm.trans h'.eq
  obtain ⟨-, hbehind⟩ := List.cons.inj (List.append_cancel_left heq)
  obtain rfl := List.append_cancel_right hbehind
  have hread := h.opening.symm.trans h'.opening
  exact ⟨rfl, (Prod.mk.inj (Option.some.inj hread)).1⟩

/-! ### One attribute more -/

/-- Up to the end of an opening tag: the attributes are read with one more behind them. -/
theorem exists_of_attributes?_tagEnd (hadded : Takes attribute? added extra) {fuel : Nat} {closed : Bool}
    (h : attributes? fuel s = some ((attributes, closed), rest)) :
    ∃ b, s = b ++ (tagEnd closed ++ rest) ∧ ∀ fuel' ≥ b.length + 2, ∀ more,
      attributes? fuel' (b ++ ((" " : Text) ++ (added ++ (tagEnd closed ++ more)))) =
        some ((attributes ++ [extra], closed), more) := by
  induction fuel generalizing s attributes closed rest with
  | zero => cases h
  | succ fuel ih =>
    obtain ⟨w, t, rfl, -, hw, ht⟩ := exists_blanks s
    -- behind the blanks in front of the end there is room for an attribute
    have hend : ∀ fuel' ≥ w.length + 2, ∀ (closed : Bool) (more : Text),
        attributes? fuel' (w ++ ((" " : Text) ++ (added ++ (tagEnd closed ++ more)))) = some (([extra], closed), more) := by
      intro fuel' hfuel closed more
      obtain ⟨n, rfl⟩ : ∃ n, fuel' = n + 2 := ⟨fuel' - 2, by omega⟩
      have hblanks : ∀ c ∈ w ++ (" " : Text), c.isBlank = true := fun c hc =>
        (List.mem_append.1 hc).elim (hw c) fun hc => by rw [List.mem_singleton.1 hc]; rfl
      rw [← List.append_assoc, attributes?_takes hblanks (List.append_ne_nil_of_right_ne_nil w (List.cons_ne_nil _ _)) hadded,
        attributes?_tagEnd]
      rfl
    rw [attributes?_succ hw ht] at h
    split at h
    · next behind hopen =>
      obtain ⟨hfound, rfl⟩ := Prod.mk.inj (Option.some.inj h)
      obtain ⟨rfl, rfl⟩ := Prod.mk.inj hfound
      rw [Text.eq_append_of_dropPrefix? hopen]
      exact ⟨w, rfl, fun fuel' hfuel => hend fuel' hfuel false⟩
    · next behind _ hclosed =>
      obtain ⟨hfound, rfl⟩ := Prod.mk.inj (Option.some.inj h)
      obtain ⟨rfl, rfl⟩ := Prod.mk.inj hfound
      rw [Text.eq_append_of_dropPrefix? hclosed]
      exact ⟨w, rfl, fun fuel' hfuel => hend fuel' hfuel true⟩
    · split at h
      · cases h
      · next hnil =>
        obtain ⟨⟨first, behind⟩, hattribute, h⟩ := Option.bind_eq_some_iff.1 h
        obtain ⟨⟨⟨others, closed'⟩, rest'⟩, hothers, heq⟩ := Option.map_eq_some_iff.1 h
        obtain ⟨hfound, rfl⟩ := Prod.mk.inj heq
        obtain ⟨rfl, rfl⟩ := Prod.mk.inj hfound
        obtain ⟨u, rfl, hne, -, hu⟩ := isLocal_attribute? t first behind hattribute
        obtain ⟨b, rfl, hb⟩ := ih hothers
        refine ⟨w ++ (u ++ b), by simp only [List.append_assoc], fun fuel' hfuel more => ?_⟩
        have hlength := List.length_pos_of_ne_nil hne
        rw [List.length_append, List.length_append] at hfuel
        obtain ⟨n, rfl⟩ : ∃ n, fuel' = n + 1 := ⟨fuel' - 1, by omega⟩
        rw [List.append_assoc, List.append_assoc, attributes?_takes hw hnil hu, hb n (by omega) more]
        rfl

/-- An opening tag is read with one attribute more in front of its end. -/
theorem exists_of_openingTag? (hadded : Takes attribute? added extra) (h : openingTag? s = some (tag, rest)) :
    ∃ b, s = b ++ (tagEnd tag.closed ++ rest) ∧ ∀ more,
      openingTag? (b ++ ((" " : Text) ++ (added ++ (tagEnd tag.closed ++ more)))) =
        some ({ tag with attributes := tag.attributes ++ [extra] }, more) := by
  obtain ⟨⟨name, behind⟩, hname, h⟩ := Option.bind_eq_some_iff.1 h
  obtain ⟨⟨⟨attributes, closed⟩, rest'⟩, hattributes, h⟩ := Option.bind_eq_some_iff.1 h
  obtain ⟨rfl, rfl⟩ := Prod.mk.inj (Option.some.inj h)
  obtain ⟨b, rfl, hb⟩ := exists_of_attributes?_tagEnd hadded hattributes
  obtain ⟨hqualified, rfl, hends⟩ := qualifiedName?_eq_some hname
  refine ⟨writeName name ++ b, (List.append_assoc _ _ _).symm, fun more => ?_⟩
  dsimp only
  have hbehind : endsName (b ++ ((" " : Text) ++ (added ++ (tagEnd closed ++ more)))) = true := by
    cases b with
    | nil => rfl
    | cons c b => exact hends
  have hfuel : b.length + 2 ≤ (b ++ ((" " : Text) ++ (added ++ (tagEnd closed ++ more)))).length + 1 := by
    rw [List.length_append, List.length_append, show (" " : Text).length = 1 from rfl]
    omega
  rw [openingTag?, List.append_assoc, qualifiedName?_writeName hqualified hbehind]
  simp only [Option.bind_eq_bind, Option.bind_some, hb _ hfuel more]

end EquationExport.Xml
