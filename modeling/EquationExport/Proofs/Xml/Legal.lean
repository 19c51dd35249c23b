import EquationExport.Proofs.Text.Occurrence
import EquationExport.Proofs.Xml.Forest
import EquationExport.Xml.Reader

/-!
# Legal characters

What a reader has read holds no characters but those that may stand in a document, however they were written:
literally, in a section of literal text, or as a reference. Every token adds a legal piece to the content of an
open element, and an element that is closed is a piece of the element around it. In the same way every tag has
what the tags have that are read and resolved.
-/

namespace EquationExport.Xml

open Node

/-! ### Tokens -/

theorem isSurrogate_of_isXml {c : CodePoint} (h : c.isXml = true) : c.isSurrogate = false := by
  rw [← Bool.not_eq_true]
  intro hsurrogate
  simp only [CodePoint.isSurrogate, CodePoint.inRange, Bool.and_eq_true, decide_eq_true_eq] at hsurrogate
  simp only [CodePoint.isXml, CodePoint.inRange, Bool.or_eq_true, Bool.and_eq_true, decide_eq_true_eq,
    beq_iff_eq] at h
  rcases h with ((((rfl | rfl) | rfl) | h) | h) | h
  · exact absurd hsurrogate (by decide)
  · exact absurd hsurrogate (by decide)
  · exact absurd hsurrogate (by decide)
  · omega
  · omega
  · omega

theorem isLegal_iff {s : Text} : isLegal s = true ↔ ∀ c ∈ s, c.isXml = true := List.all_eq_true

theorem isLegal_append {s t : Text} : isLegal (s ++ t) = true ↔ isLegal s = true ∧ isLegal t = true := by
  simp [isLegal]

/-- Line ends come out as line feeds, and other code points as they are. -/
theorem forall_normalizeLineEnds {P : CodePoint → Prop} {s : Text} (hfeed : P '\n') (h : ∀ c ∈ s, P c) :
    ∀ c ∈ normalizeLineEnds s, P c := by
  induction s with
  | nil => intro c hc; cases hc
  | cons d s ih =>
    have hrest := ih fun c hc => h c (List.mem_cons_of_mem _ hc)
    intro c hc
    rw [normalizeLineEnds] at hc
    split at hc
    · split at hc
      · exact hrest c hc
      · rcases List.mem_cons.1 hc with rfl | hc
        · exact hfeed
        · exact hrest c hc
    · rcases List.mem_cons.1 hc with rfl | hc
      · exact h c List.mem_cons_self
      · exact hrest c hc

theorem isLegal_normalizeLineEnds {s : Text} (h : isLegal s = true) : isLegal (normalizeLineEnds s) = true :=
  isLegal_iff.2 (forall_normalizeLineEnds (by decide) (isLegal_iff.1 h))

theorem isLegal_until? {mark s content rest : Text} (h : until? mark s = some (content, rest)) :
    isLegal content = true := by
  unfold until? at h
  split at h
  · split at h
    · next hlegal =>
      obtain ⟨rfl, -⟩ := Prod.mk.inj (Option.some.inj h)
      exact isLegal_normalizeLineEnds hlegal
    · cases h
  · cases h

theorem isXml_characterOf? {base : Nat} {digit? : CodePoint → Option Nat} {digits : Text} {c : CodePoint}
    (h : characterOf? base digit? digits = some c) : c.isXml = true := by
  unfold characterOf? at h
  split at h
  · dsimp only at h
    split at h
    · next hchar =>
      obtain rfl := Option.some.inj h
      exact (Bool.and_eq_true_iff.1 hchar).2
    · cases h
  · cases h

/-- A reference stands for a legal character. -/
theorem isXml_reference? {s rest : Text} {c : CodePoint} (h : reference? s = some (c, rest)) : c.isXml = true := by
  unfold reference? at h
  split at h
  · cases h
  · obtain ⟨d, hd, heq⟩ := Option.map_eq_some_iff.1 h
    obtain ⟨rfl, -⟩ := Prod.mk.inj heq
    split at hd
    · exact isXml_characterOf? hd
    · split at hd
      · exact isXml_characterOf? hd
      · obtain ⟨named, hnamed, rfl⟩ := Option.map_eq_some_iff.1 hd
        have hall : ∀ named ∈ namedCharacters, named.2.isXml = true := by decide
        exact hall named (List.mem_of_find?_eq_some hnamed)

theorem isLegal_comment? {s content rest : Text} (h : comment? s = some (content, rest)) : isLegal content = true := by
  unfold comment? at h
  split at h
  · next inside behind huntil =>
    obtain ⟨after, -, heq⟩ := Option.map_eq_some_iff.1 h
    obtain ⟨rfl, -⟩ := Prod.mk.inj heq
    exact isLegal_until? huntil
  · cases h

theorem isLegal_instruction? {s target rest : Text} {content : Option Text}
    (h : instruction? s = some ((target, content), rest)) : isLegal (content.getD []) = true := by
  unfold instruction? at h
  split at h
  · cases h
  · split at h
    · cases h
    · split at h
      · obtain ⟨⟨-, rfl⟩, -⟩ := by simpa using h
        rfl
      · split at h
        · obtain ⟨⟨inside, behind⟩, huntil, heq⟩ := Option.map_eq_some_iff.1 h
          obtain ⟨⟨-, rfl⟩, -⟩ := by simpa using heq
          exact isLegal_until? huntil
        · cases h

/-! ### Content -/

/-- Every text in the trees is legal. -/
abbrev LegalTexts (l : List Node) : Prop := Everywhere (fun n => isLegal (n.text?.getD []) = true) l

/-- The texts in the node and behind it are legal, and its tag has the property. -/
structure Node.IsLegal (P : Tag → Prop) (node : Node) : Prop where
  text : isLegal (node.text?.getD []) = true
  tail : isLegal node.tail = true
  tag : ∀ tag ∈ node.tag?, P tag

variable {P : Tag → Prop}

/-- The piece of content is legal. -/
def Piece.IsLegal (P : Tag → Prop) : Piece → Prop
  | .text t => isLegal t = true
  | .node n => Everywhere (Node.IsLegal P) [n]

theorem isLegal_withTail {node : Node} {tail : Text} (htail : isLegal tail = true)
    (h : Everywhere (Node.IsLegal P) [node]) : Everywhere (Node.IsLegal P) [node.withTail tail] := by
  obtain ⟨⟨htext, -, htag⟩, hbelow⟩ := everywhere_singleton.1 h
  cases node with
  | element => exact everywhere_singleton.2 ⟨⟨htext, htail, htag⟩, hbelow⟩
  | comment | instruction => exact everywhere_singleton.2 ⟨⟨htext, htail, htag⟩, everywhere_nil⟩

/-- Legal pieces give legal content. -/
theorem isLegal_assemble {pieces : List Piece} (h : ∀ p ∈ pieces, p.IsLegal P) :
    isLegal ((assemble pieces).1.getD []) = true ∧ Everywhere (Node.IsLegal P) (assemble pieces).2 := by
  induction pieces with
  | nil => exact ⟨rfl, everywhere_nil⟩
  | cons p pieces ih =>
    obtain ⟨htext, hnodes⟩ := ih fun q hq => h q (List.mem_cons_of_mem _ hq)
    have hp := h p List.mem_cons_self
    cases p with
    | text t => exact ⟨isLegal_append.2 ⟨hp, htext⟩, hnodes⟩
    | node n => exact ⟨rfl, everywhere_cons.2 ⟨isLegal_withTail htext hp, hnodes⟩⟩

/-! ### Open elements -/

/-- The content so far is legal, and the tag has the property. -/
structure Frame.IsLegal (P : Tag → Prop) (f : Frame) : Prop where
  pieces : ∀ p ∈ f.pieces, p.IsLegal P
  tag : P f.tag

theorem Frame.IsLegal.push {f : Frame} (h : f.IsLegal P) {p : Piece} (hp : p.IsLegal P) : (f.push p).IsLegal P := by
  refine ⟨fun q hq => ?_, h.tag⟩
  rcases List.mem_cons.1 hq with rfl | hq
  · exact hp
  · exact h.pieces q hq

/-- A closed element is legal. -/
theorem Frame.IsLegal.close {f : Frame} (h : f.IsLegal P) : Everywhere (Node.IsLegal P) [f.close] := by
  have hpieces : ∀ p ∈ f.pieces.reverse, p.IsLegal P := fun p hp => h.pieces p (List.mem_reverse.1 hp)
  obtain ⟨htext, hnodes⟩ := isLegal_assemble hpieces
  refine everywhere_singleton.2 ⟨⟨htext, rfl, fun tag htag => ?_⟩, hnodes⟩
  obtain rfl : f.tag = tag := Option.some.inj htag
  exact h.tag

theorem Frame.IsLegal.addText {f : Frame} (h : f.IsLegal P) {t following : Text} (ht : isLegal t = true) :
    (f.addText t following).IsLegal P := by
  unfold Frame.addText
  dsimp only
  split
  · exact h
  · refine ⟨fun p hp => ?_, h.tag⟩
    rcases List.mem_cons.1 hp with rfl | hp
    · exact ht
    · exact h.pieces p hp

/-- The content of all open elements is legal. -/
structure Reader.IsLegal (P : Tag → Prop) (r : Reader) : Prop where
  innermost : r.innermost.IsLegal P
  outer : ∀ f ∈ r.outer, f.IsLegal P

/-- A tag that is read and resolved in any scope has the property. -/
def HoldsOfTags (P : Tag → Prop) : Prop :=
  ∀ s written rest scope tag inner, openingTag? s = some (written, rest) → resolve? scope written = some (tag, inner) →
    P tag

namespace Reader.IsLegal

variable {r r' : Reader} {s rest : Text}

theorem push (h : r.IsLegal P) {p : Piece} (hp : p.IsLegal P) : (r.push p).IsLegal P := ⟨h.innermost.push hp, h.outer⟩

theorem openElement? (hP : HoldsOfTags P) (h : r.IsLegal P) {written : WrittenTag}
    (hwritten : openingTag? s = some (written, rest)) (hr : r.openElement? written = some r') : r'.IsLegal P := by
  unfold Reader.openElement? at hr
  split at hr
  · cases hr
  · split at hr
    · cases hr
    · next tag scope hresolve =>
      have htag : P tag := hP _ _ _ _ _ _ hwritten hresolve
      dsimp only at hr
      split at hr
      · obtain rfl := Option.some.inj hr
        exact h.push (Frame.IsLegal.close ⟨fun p hp => absurd hp List.not_mem_nil, htag⟩)
      · obtain rfl := Option.some.inj hr
        refine ⟨⟨fun p hp => absurd hp List.not_mem_nil, htag⟩, fun f hf => ?_⟩
        rcases List.mem_cons.1 hf with rfl | hf
        · exact h.innermost
        · exact h.outer f hf

theorem closeElement? (h : r.IsLegal P) {name : WrittenName} (hr : r.closeElement? name = some r') : r'.IsLegal P := by
  unfold Reader.closeElement? at hr
  split at hr
  · cases hr
  · next f outer houter =>
    split at hr
    · obtain rfl := Option.some.inj hr
      have hall := h.outer
      rw [houter] at hall
      exact ⟨(hall f List.mem_cons_self).push h.innermost.close, fun g hg => hall g (List.mem_cons_of_mem _ hg)⟩
    · cases hr

theorem readMarkup? (hP : HoldsOfTags P) (h : r.IsLegal P) (hr : r.readMarkup? s = some (r', rest)) : r'.IsLegal P := by
  unfold Reader.readMarkup? at hr
  split at hr
  · obtain ⟨⟨tag, behind⟩, hwritten, hr⟩ := Option.bind_eq_some_iff.1 hr
    obtain ⟨opened, hopened, hr⟩ := Option.bind_eq_some_iff.1 hr
    obtain ⟨rfl, -⟩ := Prod.mk.inj (Option.some.inj hr)
    exact h.openElement? hP hwritten hopened
  · split at hr
    · obtain ⟨⟨content, behind⟩, hcontent, heq⟩ := Option.map_eq_some_iff.1 hr
      obtain ⟨rfl, -⟩ := Prod.mk.inj heq
      exact h.push (everywhere_singleton.2 ⟨⟨isLegal_comment? hcontent, rfl, fun _ h => by cases h⟩, everywhere_nil⟩)
    · split at hr
      · obtain ⟨⟨content, behind⟩, hcontent, heq⟩ := Option.map_eq_some_iff.1 hr
        obtain ⟨rfl, -⟩ := Prod.mk.inj heq
        exact h.push (isLegal_until? hcontent)
      · split at hr
        · obtain ⟨⟨⟨target, content⟩, behind⟩, hcontent, heq⟩ := Option.map_eq_some_iff.1 hr
          obtain ⟨rfl, -⟩ := Prod.mk.inj heq
          exact h.push (everywhere_singleton.2 ⟨⟨isLegal_instruction? hcontent, rfl, fun _ h => by cases h⟩, everywhere_nil⟩)
        · split at hr
          · obtain ⟨⟨name, behind⟩, -, hr⟩ := Option.bind_eq_some_iff.1 hr
            obtain ⟨closed, hclosed, hr⟩ := Option.bind_eq_some_iff.1 hr
            obtain ⟨rfl, -⟩ := Prod.mk.inj (Option.some.inj hr)
            exact h.closeElement? hclosed
          · cases hr

/-- One token more. -/
theorem step? (hP : HoldsOfTags P) (h : r.IsLegal P) (hr : r.step? s = some (r', rest)) : r'.IsLegal P := by
  unfold Reader.step? at hr
  split at hr
  · exact h.readMarkup? hP hr
  · obtain ⟨⟨c, behind⟩, hc, heq⟩ := Option.map_eq_some_iff.1 hr
    obtain ⟨rfl, -⟩ := Prod.mk.inj heq
    exact h.push (isLegal_iff.2 fun d hd => by rw [List.mem_singleton.1 hd]; exact isXml_reference? hc)
  · dsimp only at hr
    split at hr
    · next hlegal =>
      obtain ⟨rfl, -⟩ := Prod.mk.inj (Option.some.inj hr)
      exact ⟨h.innermost.addText (isLegal_normalizeLineEnds (Bool.and_eq_true_iff.1 hlegal).1), h.outer⟩
    · cases hr

/-- All tokens up to the end. -/
theorem run? (hP : HoldsOfTags P) {fuel : Nat} (h : r.IsLegal P) (hr : Reader.run? fuel r s = some r') : r'.IsLegal P := by
  induction fuel generalizing r s with
  | zero =>
    cases s with
    | nil =>
      obtain rfl := Option.some.inj hr
      exact h
    | cons c s => cases hr
  | succ fuel ih =>
    cases s with
    | nil =>
      obtain rfl := Option.some.inj hr
      exact h
    | cons c s =>
      rw [Reader.run?] at hr
      split at hr
      · next next rest hstep => exact ih (h.step? hP hstep) hr
      · cases hr

end Reader.IsLegal

variable {root : Tag} {scope : Scope} {s : Text} {text : Option Text} {l : List Node}

/-- Content that is read holds legal texts alone, and its tags have what all tags have that are read. -/
theorem isLegal_of_readContent? (hP : HoldsOfTags P) (hroot : P root)
    (h : readContent? root scope s = some (text, l)) : Everywhere (Node.IsLegal P) l := by
  unfold readContent? at h
  dsimp only at h
  split at h
  · next f hrun =>
    have hlegal := (Reader.IsLegal.run? hP
      ⟨⟨fun p hp => absurd hp List.not_mem_nil, hroot⟩, fun f hf => absurd hf List.not_mem_nil⟩ hrun).innermost
    have hpieces : ∀ p ∈ f.pieces.reverse, p.IsLegal P := fun p hp => hlegal.pieces p (List.mem_reverse.1 hp)
    have hnodes := (isLegal_assemble hpieces).2
    rwa [Option.some.inj h] at hnodes
  · cases h

theorem legalTexts_of_readContent? (h : readContent? root scope s = some (text, l)) : LegalTexts l := by
  have hP : HoldsOfTags fun _ => True := fun _ _ _ _ _ _ _ _ => trivial
  exact (isLegal_of_readContent? hP trivial h).mono fun n hn => hn.text

end EquationExport.Xml
