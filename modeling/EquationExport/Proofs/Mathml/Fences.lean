import EquationExport.Equation.Conversion
import EquationExport.Html.Tree
import EquationExport.Proofs.Document.Finished
import EquationExport.Proofs.Document.Provenance
import EquationExport.Proofs.Mathml.Elements

/-!
# Formulas without their fences

The second attempt to convert a formula is made without its fence operators. They are deleted from the formula as it is
written, wherever they stand, and what is left is written of the tree without them: one pass, which does not look again at
what has come together. Most constructs of MathML take any number of parts, but a fraction, a root or a script takes two or
three, and where one of these is itself a fence operator, the construct is left with a part too few.
-/

namespace EquationExport.Mathml

open Html (Node MarkupKind escape escapePoint quotedValue writeNodesIn writeMarkup isVoid verbatimNames keptValue)

variable {name inside s t : Text} {attributes : Attributes} {node : Node} {nodes children : List Node} {c : CodePoint}

/-! ### Trees of markup -/

/-- May stand in the name of an element or attribute: no white space and none of the characters that tags are made of. -/
def isNamePoint (c : CodePoint) : Bool := !c.isSpace && c ∉ ("<>/&\"'=" : Text)

/-- A name that can stand in a tag. -/
def isTagName (name : Text) : Bool := !name.isEmpty && name.all isNamePoint

mutual

/--
A tree whose tags can be told from its text: elements and attributes have names that can stand in tags, no text is written
as it is, only an element that has no content closes itself, and nothing in a comment looks like an operator.
-/
def isMarkupTree : Node → Bool
  | .element name attributes children =>
    isTagName name && attributes.all (fun a => isTagName a.1) && !verbatimNames.contains name &&
      (!isVoid name || children.isEmpty) && areMarkupTrees children
  | .text _ _ => true
  | .markup _ content => !content.contains "<mo"

def areMarkupTrees : List Node → Bool
  | [] => true
  | node :: nodes => isMarkupTree node && areMarkupTrees nodes

end

/-! ### Fence operators -/

/-- A fence glyph. -/
def isFence (c : CodePoint) : Bool := c ∈ ("()[]\x7b\x7d|‖⟨⟩〈〉" : Text)

/-- The text that nodes are, if they are text alone. -/
def plainText? : List Node → Option Text
  | [] => some []
  | .text _ t :: rest => (plainText? rest).map (t ++ ·)
  | _ :: _ => none

/-- An operator that holds a fence glyph and nothing else, white space aside. -/
def isFenceOperator : Node → Bool
  | .element name _ children => name = "mo" && (plainText? children).any (holdsOnly isFence)
  | _ => false

mutual

/-- The node without the fence operators inside it. -/
def withoutFences : Node → Node
  | .element name attributes children => .element name attributes (dropFences children)
  | .text kind t => .text kind t
  | .markup kind content => .markup kind content

/-- The nodes without the fence operators among them and inside them. -/
def dropFences : List Node → List Node
  | [] => []
  | node :: rest => if isFenceOperator node then dropFences rest else withoutFences node :: dropFences rest

end

/-! ### Numbers of parts -/

/-- The number of parts that an element takes, if it takes a fixed number. -/
def arity? (name : Text) : Option Nat :=
  if name ∈ (["msub", "msup", "mfrac", "mroot", "munder", "mover"] : List Text) then some 2
  else if name ∈ (["msubsup", "munderover"] : List Text) then some 3
  else none

/-- The elements among some nodes. -/
def parts (nodes : List Node) : List Node := nodes.filter (·.isElement)

/-- The element has as many parts as it takes. -/
def hasArity : Node → Bool
  | .element name _ children => (arity? name).all fun n => (parts children).length = n
  | _ => true

/-- Every element among some trees has as many parts as it takes. -/
def HaveArity (nodes : List Node) : Prop := ∀ node ∈ Node.subtrees nodes, hasArity node = true

/-- The node is an element that takes a fixed number of parts, and one of its children is a fence operator. -/
def takesFence : Node → Bool
  | .element name _ children => (arity? name).isSome && children.any isFenceOperator
  | _ => false

/-- No part of an element with a fixed number of parts is a fence operator. -/
def SpareArguments (nodes : List Node) : Prop := ∀ node ∈ Node.subtrees nodes, takesFence node = false

instance (nodes : List Node) : Decidable (HaveArity nodes) := inferInstanceAs (Decidable (∀ node ∈ Node.subtrees nodes, _))

instance (nodes : List Node) : Decidable (SpareArguments nodes) := inferInstanceAs (Decidable (∀ node ∈ Node.subtrees nodes, _))

/-! ### Tags as they are written -/

theorem not_mem_tagName (h : isTagName name = true) (hc : isNamePoint c = false) : c ∉ name := by
  intro hmem
  rw [List.all_eq_true.1 (Bool.and_eq_true_iff.1 h).2 c hmem] at hc
  cases hc

theorem exists_cons_of_tagName (h : isTagName name = true) : ∃ c rest, name = c :: rest ∧ isNamePoint c = true := by
  obtain ⟨hne, hall⟩ := Bool.and_eq_true_iff.1 h
  cases name with
  | nil => cases hne
  | cons c rest => exact ⟨c, rest, rfl, List.all_eq_true.1 hall c List.mem_cons_self⟩

theorem angle_not_mem_quotedValue (v : Text) : ('<' : CodePoint) ∉ quotedValue (escape v) ∧ ('>' : CodePoint) ∉ quotedValue (escape v) := by
  have hquotes : ∀ c ∈ [('<' : CodePoint), '>'], c ∉ ("\"" : Text) ∧ c ∉ ("'" : Text) ∧ c ∉ ("&quot;" : Text) := by decide
  have hnot : ∀ c ∈ [('<' : CodePoint), '>'], c ∉ escape v → c ∉ quotedValue (escape v) := by
    intro c hc hv
    obtain ⟨hdouble, hsingle, hreference⟩ := hquotes c hc
    unfold quotedValue
    split
    · simp only [List.mem_append, not_or]
      exact ⟨⟨hdouble, hv⟩, hdouble⟩
    · split
      · simp only [List.mem_append, not_or]
        exact ⟨⟨hsingle, hv⟩, hsingle⟩
      · simp only [List.mem_append, List.mem_flatMap, not_or, not_exists, not_and]
        refine ⟨⟨hdouble, fun d hd => ?_⟩, hdouble⟩
        split
        · exact hreference
        · exact fun hmem => hv (List.mem_singleton.1 hmem ▸ hd)
  exact ⟨hnot '<' (by decide) (angle_not_mem_escape v).1, hnot '>' (by decide) (angle_not_mem_escape v).2⟩

/-- No angle bracket stands inside a tag. -/
theorem angle_not_mem_writeTag (hname : isTagName name = true) (hattributes : ∀ a ∈ attributes, isTagName a.1 = true) :
    ('<' : CodePoint) ∉ Html.writeTag name attributes ∧ ('>' : CodePoint) ∉ Html.writeTag name attributes := by
  have hattribute : ∀ a ∈ attributes, ∀ c ∈ [('<' : CodePoint), '>'], isNamePoint c = false → c ∉ quotedValue (escape (keptValue name a)) →
      c ∉ Html.writeAttribute name a := by
    intro a ha c hc hpoint hvalue
    have hsigns : ∀ c ∈ [('<' : CodePoint), '>'], c ∉ (" " : Text) ∧ c ∉ ("=" : Text) := by decide
    obtain ⟨hspace, hsign⟩ := hsigns c hc
    simp only [Html.writeAttribute, List.mem_append, not_or]
    exact ⟨⟨⟨hspace, not_mem_tagName (hattributes a ha) hpoint⟩, hsign⟩, hvalue⟩
  simp only [Html.writeTag, List.mem_append, List.mem_flatMap, List.mem_mergeSort, not_or, not_exists, not_and]
  refine ⟨⟨not_mem_tagName hname (by decide), fun a ha => ?_⟩, not_mem_tagName hname (by decide), fun a ha => ?_⟩
  · exact hattribute a ha '<' (by decide) (by decide) (angle_not_mem_quotedValue _).1
  · exact hattribute a ha '>' (by decide) (by decide) (angle_not_mem_quotedValue _).2

/-- What follows a tag is found behind it, if the tag is taken for an operator's at all. -/
theorem skipOpenTag?_cases (hgt : ('>' : CodePoint) ∉ inside) (s : Text) :
    skipOpenTag? "mo" (('<' : CodePoint) :: (inside ++ ('>' : CodePoint) :: s)) = none ∨
      skipOpenTag? "mo" (('<' : CodePoint) :: (inside ++ ('>' : CodePoint) :: s)) = some s := by
  rw [skipOpenTag?]
  cases hword : skipWord? (('<' : CodePoint) :: (inside ++ ('>' : CodePoint) :: s)) ("<" ++ ("mo" : Text)) with
  | none => exact .inl rfl
  | some r =>
    right
    have htail : inside ++ ('>' : CodePoint) :: s = "mo" ++ r := (List.cons.inj (skipWord?_eq_some_iff.1 hword).1).2
    -- the first angle bracket behind the name is the one that ends the tag
    have hfront : ("mo" : Text) <+: inside ++ ('>' : CodePoint) :: s := ⟨r, htail.symm⟩
    obtain ⟨rest, rfl⟩ := Text.prefix_of_prefix_append_cons (by decide) hfront
    rw [List.append_assoc] at htail
    obtain rfl := List.append_cancel_left htail
    rw [List.mem_append, not_or] at hgt
    have hbreak : tagRest? (rest ++ ('>' : CodePoint) :: s) = some (rest, s) := Text.breakOn?_of_not_mem hgt.2
    rw [Option.bind_some, skipTagRest?, hbreak]
    rfl

theorem skipOpenTag?_operator (hattributes : ∀ a ∈ attributes, isTagName a.1 = true) (s : Text) :
    skipOpenTag? "mo" (('<' : CodePoint) :: (Html.writeTag "mo" attributes ++ ('>' : CodePoint) :: s)) = some s := by
  have hmo : isTagName "mo" = true := by decide
  have hgt := (angle_not_mem_writeTag hmo hattributes).2
  rw [Html.writeTag, List.mem_append, not_or] at hgt
  rw [Html.writeTag, List.append_assoc]
  generalize hwritten : (attributes.mergeSort fun a b => Html.precedes a.1 b.1).flatMap (Html.writeAttribute "mo") = written at hgt
  have hend : Text.atWordEnd (written ++ ('>' : CodePoint) :: s) = true := by
    rw [← hwritten]
    cases attributes.mergeSort fun a b => Html.precedes a.1 b.1 with
    | nil => rfl
    | cons a as => rfl
  have hbreak : tagRest? (written ++ ('>' : CodePoint) :: s) = some (written, s) := Text.breakOn?_of_not_mem hgt.2
  have hword : skipWord? (('<' : CodePoint) :: ("mo" ++ (written ++ ('>' : CodePoint) :: s))) ("<" ++ ("mo" : Text)) =
      some (written ++ ('>' : CodePoint) :: s) := skipWord?_eq_some_iff.2 ⟨rfl, hend⟩
  rw [skipOpenTag?, hword, Option.bind_some, skipTagRest?, hbreak]
  rfl

/-! ### Fence glyphs in operators -/

theorem dropOneOf?_points (c : CodePoint) (s : Text) (points : Text) :
    Text.dropOneOf? (c :: s) (points.map ([·])) = if c ∈ points then some ([c], s) else none := by
  induction points with
  | nil => rfl
  | cons d points ih =>
    rw [List.map_cons, Text.dropOneOf?, Text.dropPrefix?, Text.dropPrefix?]
    by_cases hd : c = d
    · rw [if_pos hd, if_pos (List.mem_cons.2 (.inl hd)), hd]
    · rw [if_neg hd]
      dsimp only
      rw [ih]
      simp [hd]

theorem dropOneOf?_append (s : Text) (glyphs more : List Text) :
    Text.dropOneOf? s (glyphs ++ more) = (Text.dropOneOf? s glyphs).or (Text.dropOneOf? s more) := by
  induction glyphs with
  | nil => rfl
  | cons glyph glyphs ih =>
    rw [List.cons_append, Text.dropOneOf?, Text.dropOneOf?]
    cases s.dropPrefix? glyph with
    | none => exact ih
    | some rest => rfl

/-- Where no reference starts, a fence glyph is one character. -/
theorem skipFence?_of_ne (hc : c ≠ '&') (s : Text) : skipFence? (c :: s) = if isFence c then some s else none := by
  have hglyphs : fenceGlyphs = ("()[]\x7b\x7d|‖⟨⟩〈〉" : Text).map ([·]) ++ fenceGlyphs.drop 12 := by decide
  have hreferences : Text.dropOneOf? (c :: s) (fenceGlyphs.drop 12) = none := dropOneOf?_references hc s (by decide)
  rw [skipFence?, hglyphs, dropOneOf?_append, hreferences, Option.or_none, dropOneOf?_points, isFence]
  by_cases hfence : c ∈ ("()[]\x7b\x7d|‖⟨⟩〈〉" : Text)
  · rw [if_pos hfence, if_pos (decide_eq_true hfence)]
    rfl
  · rw [if_neg hfence, if_neg (by simpa using hfence)]
    rfl

theorem picks_skipFence? : Picks skipFence? isFence where
  point hc s := skipFence?_of_ne hc s
  reference := by
    intro body hbody s
    simp only [Text.ofStrings, List.map_cons, List.map_nil, List.mem_cons, List.not_mem_nil, or_false] at hbody
    rcases hbody with rfl | rfl | rfl <;> rfl
  markup := by decide

/-! ### Nodes as they are written -/

/-- A node is written in two ways: an element in tags or as one tag. -/
theorem writeIn_element (within name : Text) (attributes : Attributes) (children : List Node) :
    (Node.element name attributes children).writeIn within =
      if children.isEmpty && isVoid name then ('<' : CodePoint) :: (Html.writeTag name attributes ++ ("/>" : Text))
      else ('<' : CodePoint) :: (Html.writeTag name attributes ++ ('>' : CodePoint) :: (writeNodesIn name children ++ closeTag name)) := by
  rw [Node.writeIn]
  split
  · rfl
  · simp [closeTag, Text.ofString]

theorem isMarkupTree_element (h : isMarkupTree (.element name attributes children) = true) :
    isTagName name = true ∧ (∀ a ∈ attributes, isTagName a.1 = true) ∧ name ∉ verbatimNames ∧
      (isVoid name = true → children = []) ∧ areMarkupTrees children = true := by
  simp only [isMarkupTree, Bool.and_eq_true, Bool.or_eq_true, Bool.not_eq_true', List.all_eq_true, List.isEmpty_iff,
    List.contains_eq_mem, decide_eq_false_iff_not] at h
  obtain ⟨⟨⟨⟨hname, hattributes⟩, hverbatim⟩, hvoid⟩, hchildren⟩ := h
  refine ⟨hname, hattributes, hverbatim, fun h => hvoid.resolve_left fun hnot => ?_, hchildren⟩
  rw [h] at hnot
  cases hnot

/-- Nodes with a tag behind them begin with a text and a tag behind that, which is the tag behind them only if they are text alone. -/
theorem writeNodesIn_front {within : Text} (hwithin : within ∉ verbatimNames) (hnodes : areMarkupTrees nodes = true) (s : Text) :
    ∃ t r, writeNodesIn within nodes ++ ('<' : CodePoint) :: s = escape t ++ ('<' : CodePoint) :: r ∧
      ((plainText? nodes = some t ∧ r = s) ∨ (plainText? nodes = none ∧ ∀ more, Text.dropPrefix? r (('/' : CodePoint) :: more) = none)) := by
  induction nodes with
  | nil => exact ⟨[], s, rfl, .inl ⟨rfl, rfl⟩⟩
  | cons node rest ih =>
    obtain ⟨hnode, hrest⟩ := Bool.and_eq_true_iff.1 hnodes
    rw [writeNodesIn, List.append_assoc]
    cases node with
    | text kind t =>
      obtain ⟨u, r, heq, hcases⟩ := ih hrest
      refine ⟨t ++ u, r, ?_, ?_⟩
      · rw [heq, Node.writeIn, if_neg hwithin, escape_append, List.append_assoc]
      · rcases hcases with ⟨hplain, rfl⟩ | ⟨hplain, hnone⟩
        · exact .inl ⟨by rw [plainText?, hplain]; rfl, rfl⟩
        · exact .inr ⟨by rw [plainText?, hplain]; rfl, hnone⟩
    | markup kind content =>
      rw [Node.writeIn]
      cases kind <;> exact ⟨[], _, rfl, .inr ⟨rfl, fun more => rfl⟩⟩
    | element name attributes children =>
      obtain ⟨c, more, rfl, hc⟩ := exists_cons_of_tagName (isMarkupTree_element hnode).1
      have hne : c ≠ '/' := by
        rintro rfl
        exact absurd hc (by decide)
      have hnone : ∀ u more, Text.dropPrefix? (c :: u) (('/' : CodePoint) :: more) = none := fun u more => if_neg hne
      obtain ⟨u, hu⟩ : ∃ u, Html.writeTag (c :: more) attributes = c :: u := ⟨_, rfl⟩
      rw [writeIn_element, hu]
      split
      · exact ⟨[], _, rfl, .inr ⟨rfl, hnone _⟩⟩
      · exact ⟨[], _, rfl, .inr ⟨rfl, hnone _⟩⟩

/-- A closing tag is that of an operator if its name is. -/
theorem dropPrefix?_operatorEnd (hname : isTagName name = true) (s : Text) :
    Text.dropPrefix? ("/" ++ (name ++ (">" ++ s))) "/mo>" = if name = "mo" then some s else none := by
  by_cases h : name = "mo"
  · subst h
    rw [if_pos rfl]
    exact Text.dropPrefix?_append "/mo>" s
  · rw [if_neg h, Option.eq_none_iff_forall_ne_some]
    intro r hr
    have happend : "/" ++ (name ++ (">" ++ s)) = ("/mo>" : Text) ++ r := Text.eq_append_of_dropPrefix? hr
    have htail : name ++ ('>' : CodePoint) :: s = ("mo" : Text) ++ ('>' : CodePoint) :: r := (List.cons.inj happend).2
    exact h (Text.append_cons_inj htail (not_mem_tagName hname (by decide)) (by decide)).1

/-- No element that closes itself is taken for an operator. -/
theorem skipOpenTag?_void (h : isVoid name = true) (s : Text) : skipOpenTag? "mo" (('<' : CodePoint) :: (name ++ s)) = none := by
  have hnames : ∀ name ∈ Html.voidNames, 2 ≤ name.length ∧ name.take 2 ≠ "mo" := by decide
  obtain ⟨hlength, hne⟩ := hnames name (by simpa [isVoid] using h)
  have hword : skipWord? (('<' : CodePoint) :: (name ++ s)) ("<" ++ ("mo" : Text)) = none := by
    refine Option.eq_none_iff_forall_ne_some.2 fun r hr => ?_
    have htail : name ++ s = "mo" ++ r := (List.cons.inj (skipWord?_eq_some_iff.1 hr).1).2
    have htake := congrArg (List.take 2) htail
    rw [List.take_append_of_le_length hlength] at htake
    exact absurd htake hne
  rw [skipOpenTag?, hword]
  rfl

/-- What an element holds is a fence glyph alone, if the tag behind it is that of an operator. -/
theorem skipFence?_children (attributes : Attributes) (hname : isTagName name = true) (hverbatim : name ∉ verbatimNames)
    (hchildren : areMarkupTrees children = true) (s : Text) :
    (skipFence? (Text.trimStart (writeNodesIn name children ++ (closeTag name ++ s)))).bind
        (fun after => after.trimStart.dropPrefix? "</mo>") =
      if isFenceOperator (.element name attributes children) then some s else none := by
  have hclose : closeTag name ++ s = ('<' : CodePoint) :: ("/" ++ (name ++ (">" ++ s))) := by
    simp [closeTag, Text.ofString]
  obtain ⟨t, r, heq, hcases⟩ := writeNodesIn_front hverbatim hchildren ("/" ++ (name ++ (">" ++ s)))
  rw [hclose, heq]
  refine (picks_skipFence?.trimStart t r "/mo>").trans ?_
  rcases hcases with ⟨hplain, rfl⟩ | ⟨hplain, hnone⟩
  · rw [dropPrefix?_operatorEnd hname, isFenceOperator, hplain, Option.any_some]
    by_cases hmo : name = "mo"
    · simp [hmo]
    · simp [hmo]
  · have hend : Text.dropPrefix? r "/mo>" = none := hnone "mo>"
    rw [hend, ite_self, isFenceOperator, hplain]
    simp

/-- Of all elements as they are written, the fence operators are recognised. -/
theorem skipOperatorHolding?_element (within : Text) (h : isMarkupTree (.element name attributes children) = true) (s : Text) :
    skipOperatorHolding? skipFence? ((Node.element name attributes children).writeIn within ++ s) =
      if isFenceOperator (.element name attributes children) then some s else none := by
  obtain ⟨hname, hattributes, hverbatim, -, hchildren⟩ := isMarkupTree_element h
  have hgt := (angle_not_mem_writeTag hname hattributes).2
  rw [writeIn_element]
  split
  · next hvoid =>
    obtain ⟨hempty, hvoid⟩ := Bool.and_eq_true_iff.1 hvoid
    obtain rfl := List.isEmpty_iff.1 hempty
    have hnot : isFenceOperator (.element name attributes []) = false := by
      rw [isFenceOperator, plainText?, Option.any_some]
      exact Bool.and_eq_false_imp.2 fun _ => rfl
    rw [hnot, List.cons_append, Html.writeTag, List.append_assoc, List.append_assoc, skipOperatorHolding?, skipOpenTag?_void hvoid]
    rfl
  · have hheld := skipFence?_children attributes hname hverbatim hchildren s
    rw [List.cons_append, List.append_assoc, List.cons_append, List.append_assoc]
    cases hfence : isFenceOperator (.element name attributes children) with
    | true =>
      have hmo : name = "mo" := by
        simp only [isFenceOperator, Bool.and_eq_true, decide_eq_true_eq] at hfence
        exact hfence.1
      subst hmo
      rw [skipOperatorHolding?, skipOpenTag?_operator hattributes, Option.bind_eq_bind, Option.bind_some]
      rw [hfence] at hheld
      exact hheld
    | false =>
      rw [hfence] at hheld
      rcases skipOpenTag?_cases hgt (writeNodesIn name children ++ (closeTag name ++ s)) with hnone | hsome
      · rw [skipOperatorHolding?, hnone]
        rfl
      · rw [skipOperatorHolding?, hsome, Option.bind_eq_bind, Option.bind_some]
        exact hheld

/-! ### Deleting fence operators -/

theorem atTags_fenceOperator : AtTags (skipOperatorHolding? skipFence?) := fun c s hc => by
  rw [skipOperatorHolding?, atTags_skipOpenTag? "mo" c s hc]
  rfl

/-- Nothing is recognised but where an operator seems to start. -/
theorem skipOperatorHolding?_eq_none (h : ¬("<mo" : Text) <+: s) : skipOperatorHolding? skipFence? s = none := by
  have hword : skipWord? s ("<" ++ ("mo" : Text)) = none :=
    Option.eq_none_iff_forall_ne_some.2 fun r hr => h ⟨r, (skipWord?_eq_some_iff.1 hr).1.symm⟩
  rw [skipOperatorHolding?, skipOpenTag?, hword]
  rfl

/-- A comment, or other markup that is no element, is passed if nothing in it looks like an operator. -/
theorem passes_markup {kind : MarkupKind} {content : Text} (h : ¬("<mo" : Text) <:+: content) (s : Text) :
    Text.Passes (skipOperatorHolding? skipFence?) (writeMarkup content kind) s := by
  have hcontent : ∀ (d : CodePoint) (u : Text), d ∉ ("<mo" : Text) →
      Text.Passes (skipOperatorHolding? skipFence?) content (d :: u) := by
    intro d u hd v hv hsuffix
    refine skipOperatorHolding?_eq_none fun hprefix => h ?_
    exact (Text.prefix_of_prefix_append_cons hd hprefix).isInfix.trans hsuffix.isInfix
  have hopening : ∀ (d : CodePoint) (t u : Text), d ≠ 'm' → ('<' : CodePoint) ∉ d :: t →
      Text.Passes (skipOperatorHolding? skipFence?) (('<' : CodePoint) :: d :: t) u := by
    intro d t u hd ht
    refine atTags_fenceOperator.passes_cons ht (skipOperatorHolding?_eq_none fun hprefix => hd ?_)
    exact (List.cons_prefix_cons.1 (List.cons_prefix_cons.1 hprefix).2).1.symm
  have hclosing := fun t ht u => atTags_fenceOperator.passes (t := t) ht u
  cases kind with
  | comment =>
    exact Text.passes_append.2 ⟨Text.passes_append.2 ⟨hopening '!' "--" _ (by decide) (by decide), hcontent '-' _ (by decide)⟩,
      hclosing "-->" (by decide) s⟩
  | cdata =>
    exact Text.passes_append.2 ⟨Text.passes_append.2 ⟨hopening '!' "[CDATA[" _ (by decide) (by decide), hcontent ']' _ (by decide)⟩,
      hclosing "]]>" (by decide) s⟩
  | declaration =>
    exact Text.passes_append.2 ⟨Text.passes_append.2 ⟨hopening '?' "" _ (by decide) (by decide), hcontent '?' _ (by decide)⟩,
      hclosing "?>" (by decide) s⟩
  | doctype =>
    exact Text.passes_append.2 ⟨Text.passes_append.2 ⟨hopening '!' "DOCTYPE " _ (by decide) (by decide), hcontent '>' _ (by decide)⟩,
      hclosing ">\n" (by decide) s⟩
  | instruction =>
    exact Text.passes_append.2 ⟨Text.passes_append.2 ⟨hopening '?' "" _ (by decide) (by decide), hcontent '>' _ (by decide)⟩,
      hclosing ">" (by decide) s⟩

theorem skipOperatorHolding?_closeTag (name s : Text) : skipOperatorHolding? skipFence? (closeTag name ++ s) = none := by
  refine skipOperatorHolding?_eq_none fun hprefix => ?_
  exact absurd (List.cons_prefix_cons.1 (List.cons_prefix_cons.1 hprefix).2).1 (by decide)

theorem stripFenceOperators_of_passes (h : Text.Passes (skipOperatorHolding? skipFence?) t s) :
    stripFenceOperators (t ++ s) = t ++ stripFenceOperators s := h.replacing

theorem stripFenceOperators_of_found (ht : t ≠ []) (h : skipOperatorHolding? skipFence? (t ++ s) = some s) :
    stripFenceOperators (t ++ s) = stripFenceOperators s := Text.substitute_replacing_append ht h

/-- An element between tags that are no operator's keeps its tags, and what is inside is gone through. -/
theorem stripFenceOperators_tags {inner kept : Text} (hname : isTagName name = true)
    (hattributes : ∀ a ∈ attributes, isTagName a.1 = true)
    (hfirst : skipOperatorHolding? skipFence?
      (('<' : CodePoint) :: (Html.writeTag name attributes ++ ('>' : CodePoint) :: (inner ++ closeTag name)) ++ s) = none)
    (hinner : stripFenceOperators (inner ++ (closeTag name ++ s)) = kept ++ stripFenceOperators (closeTag name ++ s)) :
    stripFenceOperators (('<' : CodePoint) :: (Html.writeTag name attributes ++ ('>' : CodePoint) :: (inner ++ closeTag name)) ++ s) =
      ('<' : CodePoint) :: (Html.writeTag name attributes ++ ('>' : CodePoint) :: (kept ++ closeTag name)) ++ stripFenceOperators s := by
  have hsplit : ∀ inner s : Text, ('<' : CodePoint) :: (Html.writeTag name attributes ++ ('>' : CodePoint) :: (inner ++ closeTag name)) ++ s =
      ('<' : CodePoint) :: (Html.writeTag name attributes ++ (">" : Text)) ++ (inner ++ (closeTag name ++ s)) := by
    intro inner s
    simp [Text.ofString]
  have hopen : ('<' : CodePoint) ∉ Html.writeTag name attributes ++ (">" : Text) := by
    rw [List.mem_append, not_or]
    exact ⟨(angle_not_mem_writeTag hname hattributes).1, by decide⟩
  have hclose : ('<' : CodePoint) ∉ "/" ++ (name ++ (">" : Text)) := by
    simp only [List.mem_append, not_or]
    exact ⟨by decide, not_mem_tagName hname (by decide), by decide⟩
  have hclosing : stripFenceOperators (closeTag name ++ s) = closeTag name ++ stripFenceOperators s :=
    stripFenceOperators_of_passes (atTags_fenceOperator.passes_cons hclose (skipOperatorHolding?_closeTag name s))
  rw [hsplit] at hfirst ⊢
  rw [stripFenceOperators_of_passes (atTags_fenceOperator.passes_cons hopen hfirst), hinner, hclosing, hsplit]

mutual

/-- A node that is no fence operator is kept, without the fence operators inside it; what stands behind it is gone through too. -/
theorem stripFenceOperators_writeIn {within : Text} (hwithin : within ∉ verbatimNames) (s : Text) : ∀ node, isMarkupTree node = true →
    isFenceOperator node = false →
    stripFenceOperators (node.writeIn within ++ s) = (withoutFences node).writeIn within ++ stripFenceOperators s
  | .text kind t, _, _ => by
    rw [withoutFences, Node.writeIn, if_neg hwithin]
    exact stripFenceOperators_of_passes (atTags_fenceOperator.passes (angle_not_mem_escape t).1 s)
  | .markup kind content, h, _ => by
    rw [withoutFences, Node.writeIn]
    refine stripFenceOperators_of_passes (passes_markup (fun hinfix => ?_) s)
    rw [isMarkupTree, Text.contains_iff.2 hinfix] at h
    cases h
  | .element name attributes children, h, hfence => by
    obtain ⟨hname, hattributes, hverbatim, hvoid, hchildren⟩ := isMarkupTree_element h
    have hfirst := skipOperatorHolding?_element within h s
    rw [hfence, if_neg (by decide), writeIn_element] at hfirst
    rw [withoutFences, writeIn_element, writeIn_element]
    by_cases hempty : (children.isEmpty && isVoid name) = true
    · obtain rfl := List.isEmpty_iff.1 (Bool.and_eq_true_iff.1 hempty).1
      rw [if_pos hempty] at hfirst ⊢
      rw [dropFences, if_pos hempty]
      refine stripFenceOperators_of_passes (atTags_fenceOperator.passes_cons ?_ hfirst)
      rw [List.mem_append, not_or]
      exact ⟨(angle_not_mem_writeTag hname hattributes).1, by decide⟩
    · have hdropped : ((dropFences children).isEmpty && isVoid name) = false := by
        cases hv : isVoid name with
        | false => rw [Bool.and_false]
        | true =>
          obtain rfl := hvoid hv
          rw [hv] at hempty
          exact absurd rfl hempty
      rw [if_neg hempty] at hfirst ⊢
      rw [hdropped, if_neg (by decide)]
      exact stripFenceOperators_tags hname hattributes hfirst
        (stripFenceOperators_writeNodesIn hverbatim (closeTag name ++ s) children hchildren)

theorem stripFenceOperators_writeNodesIn {within : Text} (hwithin : within ∉ verbatimNames) (s : Text) :
    ∀ nodes, areMarkupTrees nodes = true →
    stripFenceOperators (writeNodesIn within nodes ++ s) = writeNodesIn within (dropFences nodes) ++ stripFenceOperators s
  | [], _ => rfl
  | node :: rest, h => by
    obtain ⟨hnode, hrest⟩ := Bool.and_eq_true_iff.1 h
    have hlater := stripFenceOperators_writeNodesIn hwithin s rest hrest
    rw [writeNodesIn, List.append_assoc, dropFences]
    cases hfence : isFenceOperator node with
    | false =>
      rw [stripFenceOperators_writeIn hwithin _ node hnode hfence, hlater, if_neg (by decide), writeNodesIn, List.append_assoc]
    | true =>
      rw [if_pos rfl, ← hlater]
      cases node with
      | text => cases hfence
      | markup => cases hfence
      | element name attributes children =>
        have hfound := skipOperatorHolding?_element within hnode (writeNodesIn within rest ++ s)
        rw [hfence, if_pos rfl] at hfound
        refine stripFenceOperators_of_found ?_ hfound
        rw [writeIn_element]
        split <;> exact List.cons_ne_nil _ _

end

/-- Deleting the fence operators from a tree as it is written gives what is written of the tree without them. -/
theorem stripFenceOperators_write (h : isMarkupTree node = true) (hfence : isFenceOperator node = false) :
    stripFenceOperators node.write = (withoutFences node).write := by
  have hverbatim : ([] : Text) ∉ verbatimNames := by decide
  have hstrip := stripFenceOperators_writeIn hverbatim [] node h hfence
  rw [List.append_nil] at hstrip
  exact hstrip.trans (List.append_nil _)

mutual

theorem isMarkupTree_withoutFences : ∀ node, isMarkupTree node = true → isMarkupTree (withoutFences node) = true
  | .text .., h => h
  | .markup .., h => h
  | .element name attributes children, h => by
    have hchildren := areMarkupTrees_dropFences children (isMarkupTree_element h).2.2.2.2
    simp only [isMarkupTree, Bool.and_eq_true, Bool.or_eq_true] at h
    simp only [withoutFences, isMarkupTree, Bool.and_eq_true, Bool.or_eq_true]
    refine ⟨⟨h.1.1, h.1.2.imp_right fun hempty => ?_⟩, hchildren⟩
    rw [List.isEmpty_iff.1 hempty]
    rfl

theorem areMarkupTrees_dropFences : ∀ nodes, areMarkupTrees nodes = true → areMarkupTrees (dropFences nodes) = true
  | [], _ => rfl
  | node :: rest, h => by
    obtain ⟨hnode, hrest⟩ := Bool.and_eq_true_iff.1 h
    rw [dropFences]
    split
    · exact areMarkupTrees_dropFences rest hrest
    · exact Bool.and_eq_true_iff.2 ⟨isMarkupTree_withoutFences node hnode, areMarkupTrees_dropFences rest hrest⟩

end

/-! ### What is left of the parts -/

theorem haveArity_cons : HaveArity (node :: nodes) ↔ HaveArity [node] ∧ HaveArity nodes := Document.within_cons

theorem haveArity_element : HaveArity [.element name attributes children] ↔
    hasArity (.element name attributes children) = true ∧ HaveArity children := Document.within_element

theorem spareArguments_cons : SpareArguments (node :: nodes) ↔ SpareArguments [node] ∧ SpareArguments nodes := Document.within_cons

theorem spareArguments_element : SpareArguments [.element name attributes children] ↔
    takesFence (.element name attributes children) = false ∧ SpareArguments children := Document.within_element

theorem parts_cons_of_pos (h : node.isElement = true) : parts (node :: nodes) = node :: parts nodes := List.filter_cons_of_pos h

theorem parts_cons_of_neg (h : ¬node.isElement = true) : parts (node :: nodes) = parts nodes := List.filter_cons_of_neg h

/-- Of the elements among some nodes, those that are no fence operators stay. -/
theorem length_parts (nodes : List Node) :
    (parts nodes).length = (parts (dropFences nodes)).length + (nodes.filter isFenceOperator).length := by
  induction nodes with
  | nil => rfl
  | cons node rest ih =>
    rw [dropFences]
    by_cases hfence : isFenceOperator node = true
    · have helement : node.isElement = true := by
        cases node with
        | element => rfl
        | text => cases hfence
        | markup => cases hfence
      rw [if_pos hfence, List.filter_cons_of_pos hfence, parts_cons_of_pos helement, List.length_cons, List.length_cons]
      omega
    · have hsame : (withoutFences node).isElement = node.isElement := by cases node <;> rfl
      rw [if_neg hfence, List.filter_cons_of_neg hfence]
      by_cases helement : node.isElement = true
      · rw [parts_cons_of_pos helement, parts_cons_of_pos (hsame.trans helement), List.length_cons, List.length_cons]
        omega
      · rw [parts_cons_of_neg helement, parts_cons_of_neg (hsame ▸ helement)]
        exact ih

/-- An element with as many parts as it takes keeps them all if and only if none of them is a fence operator. -/
theorem hasArity_dropFences_iff (h : hasArity (.element name attributes children) = true) :
    hasArity (.element name attributes (dropFences children)) = true ↔ takesFence (.element name attributes children) = false := by
  have hlength := length_parts children
  simp only [hasArity, takesFence] at h ⊢
  cases harity : arity? name with
  | none => simp
  | some n =>
    rw [harity, Option.all_some, decide_eq_true_eq] at h
    rw [Option.all_some, decide_eq_true_eq, Option.isSome_some, Bool.true_and, List.any_eq_false]
    have hnone : (children.filter isFenceOperator).length = 0 ↔ ∀ child ∈ children, ¬isFenceOperator child = true := by
      rw [List.length_eq_zero_iff, List.filter_eq_nil_iff]
    rw [← hnone]
    omega

theorem spareArguments_of_plainText? {nodes : List Node} {t : Text} (h : plainText? nodes = some t) : SpareArguments nodes := by
  induction nodes generalizing t with
  | nil => exact fun _ hnode => absurd hnode List.not_mem_nil
  | cons node rest ih =>
    cases node with
    | element => cases h
    | markup => cases h
    | text kind u =>
      obtain ⟨v, hv, -⟩ := Option.map_eq_some_iff.1 h
      refine spareArguments_cons.2 ⟨fun node hnode => ?_, ih hv⟩
      obtain rfl := List.mem_singleton.1 hnode
      rfl

/-- A fence operator takes any number of parts, and there is no element in it. -/
theorem spareArguments_fenceOperator (h : isFenceOperator node = true) : SpareArguments [node] := by
  cases node with
  | text => cases h
  | markup => cases h
  | element name attributes children =>
    simp only [isFenceOperator, Bool.and_eq_true, decide_eq_true_eq] at h
    obtain ⟨rfl, hheld⟩ := h
    obtain ⟨t, ht, -⟩ := (Option.any_eq_true _ _).1 hheld
    exact spareArguments_element.2 ⟨rfl, spareArguments_of_plainText? ht⟩

mutual

theorem haveArity_withoutFences_iff : ∀ node, HaveArity [node] → (HaveArity [withoutFences node] ↔ SpareArguments [node])
  | .text kind t, h => iff_of_true h (spareArguments_of_plainText? (t := t) (by simp [plainText?]))
  | .markup kind content, h => by
    refine iff_of_true h fun node hnode => ?_
    obtain rfl := List.mem_singleton.1 hnode
    rfl
  | .element name attributes children, h => by
    obtain ⟨hself, hchildren⟩ := haveArity_element.1 h
    rw [withoutFences, haveArity_element, spareArguments_element, hasArity_dropFences_iff hself,
      haveArity_dropFences_iff children hchildren]

/-- What is left of trees whose elements have as many parts as they take. -/
theorem haveArity_dropFences_iff : ∀ nodes, HaveArity nodes → (HaveArity (dropFences nodes) ↔ SpareArguments nodes)
  | [], h => iff_of_true h fun _ hnode => absurd hnode List.not_mem_nil
  | node :: rest, h => by
    obtain ⟨hnode, hrest⟩ := haveArity_cons.1 h
    have hlater := haveArity_dropFences_iff rest hrest
    rw [dropFences, spareArguments_cons]
    by_cases hfence : isFenceOperator node = true
    · rw [if_pos hfence, hlater, and_iff_right (spareArguments_fenceOperator hfence)]
    · rw [if_neg hfence, haveArity_cons, hlater, haveArity_withoutFences_iff node hnode]

end

/-! ### The second attempt -/

/--
The second attempt to convert a formula, if one is made, is made with what is written of its tree without the fence
operators, which is again a tree of markup. Its elements have as many parts as they take exactly if no part of an element
with a fixed number of parts is a fence operator itself.
-/
theorem stripFenceOperators_haveArity_iff (htree : isMarkupTree node = true) (hfence : isFenceOperator node = false)
    (harity : HaveArity [node]) :
    stripFenceOperators node.write = (withoutFences node).write ∧ isMarkupTree (withoutFences node) = true ∧
      (HaveArity [withoutFences node] ↔ SpareArguments [node]) ∧
      (conversionAttempts node.write = [node.write] ∨
        conversionAttempts node.write = [node.write, (withoutFences node).write]) := by
  have hstrip := stripFenceOperators_write htree hfence
  refine ⟨hstrip, isMarkupTree_withoutFences node htree, haveArity_withoutFences_iff node harity, ?_⟩
  rw [conversionAttempts, hstrip]
  split
  · exact .inr rfl
  · exact .inl rfl

/-- A power of a fraction in brackets, the brackets in a row of their own. -/
def bracketedPower : Node :=
  .element "math" [] [.element "msup" [] [
    .element "mrow" [] [.element "mo" [("fence", "true")] [.text .plain "("],
      .element "mfrac" [] [.element "mi" [] [.text .plain "a"], .element "mi" [] [.text .plain "b"]],
      .element "mo" [] [.text .plain " ) "]],
    .element "mn" [] [.text .plain "2"]]]

theorem stripFenceOperators_bracketedPower :
    (isMarkupTree bracketedPower = true ∧ isFenceOperator bracketedPower = false ∧ HaveArity [bracketedPower]) ∧
      HaveArity [withoutFences bracketedPower] ∧
      conversionAttempts bracketedPower.write = [bracketedPower.write,
        "<math><msup><mrow><mfrac><mi>a</mi><mi>b</mi></mfrac></mrow><mn>2</mn></msup></math>"] := by
  have htree : isMarkupTree bracketedPower = true := by decide +kernel
  have hfence : isFenceOperator bracketedPower = false := by decide +kernel
  have harity : HaveArity [bracketedPower] := by decide +kernel
  have hspare : SpareArguments [bracketedPower] := by decide +kernel
  have hall := stripFenceOperators_haveArity_iff htree hfence harity
  exact ⟨⟨htree, hfence, harity⟩, hall.2.2.1.2 hspare, by decide +kernel⟩

/-- The same power with the exponent on the closing bracket. -/
def powerOfBracket : Node :=
  .element "math" [] [.element "mo" [] [.text .plain "("],
    .element "mfrac" [] [.element "mi" [] [.text .plain "a"], .element "mi" [] [.text .plain "b"]],
    .element "msup" [] [.element "mo" [] [.text .plain ")"], .element "mn" [] [.text .plain "2"]]]

/-- An operator with a comment in it that looks like the tag of one. -/
def commentedOperator : Node := .element "math" [] [.element "mo" [] [.text .plain "x", .markup .comment " <mo ", .text .plain "("]]

/--
The exponent is left without a base: what the converter is given the second time is read as a formula with a script of one
part. Of a bracket alone nothing is left, and of an operator with a comment in it that looks like one, half the comment.
-/
theorem stripFenceOperators_not_haveArity :
    (isMarkupTree powerOfBracket = true ∧ isFenceOperator powerOfBracket = false ∧ HaveArity [powerOfBracket] ∧
      conversionAttempts powerOfBracket.write = [powerOfBracket.write,
        "<math><mfrac><mi>a</mi><mi>b</mi></mfrac><msup><mn>2</mn></msup></math>"] ∧
      ∃ page, Node.parse "<math><mfrac><mi>a</mi><mi>b</mi></mfrac><msup><mn>2</mn></msup></math>" = .ok page ∧
        ¬HaveArity page) ∧
      stripFenceOperators (Node.element "mo" [] [.text .plain "("]).write = "" ∧
      stripFenceOperators commentedOperator.write = "<math><mo>x<!-- </math>" := by
  have hpage : (Node.parse "<math><mfrac><mi>a</mi><mi>b</mi></mfrac><msup><mn>2</mn></msup></math>").toOption.any
      (fun page => !decide (HaveArity page)) = true := by decide +kernel
  obtain ⟨page, hparse, htest⟩ := Document.exists_ok_of_any hpage
  have htree : isMarkupTree powerOfBracket = true ∧ isFenceOperator powerOfBracket = false ∧ HaveArity [powerOfBracket] := by
    decide +kernel
  exact ⟨⟨htree.1, htree.2.1, htree.2.2, by decide +kernel, page, hparse, by simpa using htest⟩, by decide +kernel, by decide +kernel⟩

end EquationExport.Mathml
