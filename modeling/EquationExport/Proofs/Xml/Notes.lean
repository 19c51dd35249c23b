import Mathlib.Data.List.Forall2
import EquationExport.Proofs.Xml.Forest
import EquationExport.Proofs.Xml.Tokens

/-!
# Readers that differ in notes

A comment or a processing instruction, a *note* for short, is a node that most readers of a tree pass by, with the text
behind it. Two readers that have met different notes may still show the same: whatever is read after this, the text at
the front of each element and the nodes that are no notes come out the same.

There are two grades of that. Where text may follow, the readers have to agree on what the text will be put behind. Where
a note stands last on one side alone they do not; there a tag or another note has to come next, and then they agree again.
Content is therefore compared under everything that can still be added to it, with text at the front or without.
-/

namespace EquationExport.Xml

open Node

/-! ### Trees without notes -/

/-- The node is a comment or a processing instruction. -/
def Node.isNote (node : Node) : Bool := node.tag?.isNone

/-- The trees without notes; the text behind a note goes with it. -/
def withoutNotes (l : List Node) : List Node := pruneAll (fun _ n => !n.isNote) none l

variable {n n' : Node} {l l' rest : List Node} {p : Piece} {pieces pieces' later : List Piece}

/-- Where nothing is asked of the parent, it does not matter. -/
theorem pruneAll_parent (keep : Node → Bool) (parent parent' : Option Tag) (l : List Node) :
    pruneAll (fun _ => keep) parent l = pruneAll (fun _ => keep) parent' l := by
  induction l with
  | nil => rfl
  | cons n l ih => rw [pruneAll, pruneAll, ih]

theorem withoutNotes_nil : withoutNotes [] = [] := rfl

theorem withoutNotes_append (a b : List Node) : withoutNotes (a ++ b) = withoutNotes a ++ withoutNotes b :=
  pruneAll_append _ none a b

theorem withoutNotes_element (tag : Tag) (text : Option Text) (children : List Node) (tail : Text) (rest : List Node) :
    withoutNotes (.element tag text children tail :: rest) =
      .element tag text (withoutNotes children) tail :: withoutNotes rest := by
  have hkeep : (!(Node.element tag text children tail).isNote) = true := rfl
  rw [withoutNotes, pruneAll, if_pos hkeep, Node.prune, pruneAll_parent _ (some tag) none]
  rfl

theorem withoutNotes_note (h : n.isNote = true) (rest : List Node) : withoutNotes (n :: rest) = withoutNotes rest := by
  rw [withoutNotes, pruneAll, if_neg (by rw [h]; decide)]
  rfl

theorem withoutNotes_withTail (n : Node) (tail : Text) :
    withoutNotes [n.withTail tail] = (withoutNotes [n]).map (·.withTail tail) := by
  cases n with
  | element tag text children tail' =>
    rw [withTail, withoutNotes_element, withoutNotes_element]
    rfl
  | comment | instruction => rfl

/-! ### What content shows -/

/-- What some content shows: the text at its front, and the nodes that are no notes. -/
def shown (pieces : List Piece) : Option Text × List Node := ((assemble pieces).1, withoutNotes (assemble pieces).2)

theorem shown_text (t : Text) (pieces : List Piece) :
    shown (.text t :: pieces) = (some (t ++ (shown pieces).1.getD []), (shown pieces).2) := rfl

theorem shown_node (n : Node) (pieces : List Piece) :
    shown (.node n :: pieces) = (none, (withoutNotes [n]).map (·.withTail ((shown pieces).1.getD [])) ++ (shown pieces).2) := by
  rw [← withoutNotes_withTail]
  exact congrArg (none, ·) (withoutNotes_append [_] _)

/-- What is shown after more content depends on what is shown before. -/
theorem shown_append (front : List Piece) (h : shown pieces = shown pieces') :
    shown (front ++ pieces) = shown (front ++ pieces') := by
  induction front with
  | nil => exact h
  | cons p front ih =>
    cases p with
    | text t => rw [List.cons_append, List.cons_append, shown_text, shown_text, ih]
    | node n => rw [List.cons_append, List.cons_append, shown_node, shown_node, ih]

theorem shown_node_congr (h : withoutNotes [n'] = withoutNotes [n]) (pieces : List Piece) :
    shown (.node n' :: pieces) = shown (.node n :: pieces) := by
  rw [shown_node, shown_node, h]

/-- No text stands at the front. -/
def startsPlain (pieces : List Piece) : Bool := pieces.head?.all (!·.isText)

/-- A note shows nothing, as long as no text follows it. -/
theorem shown_note (hn : n.isNote = true) (hlater : startsPlain later = true) : shown (.node n :: later) = shown later := by
  rw [shown_node, withoutNotes_note hn, withoutNotes_nil]
  cases later with
  | nil => rfl
  | cons p later =>
    cases p with
    | text t => cases hlater
    | node m => rw [shown_node, List.map_nil, List.nil_append]

/-! ### Open elements -/

/-- The first piece of some content is text; the latest piece stands in front. -/
def startsWithText (pieces : List Piece) : Bool := pieces.getLast?.any (·.isText)

theorem startsWithText_cons : startsWithText (p :: pieces) = if pieces.isEmpty then p.isText else startsWithText pieces := by
  cases pieces with
  | nil => rfl
  | cons q pieces => rw [startsWithText, List.getLast?_cons_cons]; rfl

theorem startsWithText_node : startsWithText (.node n :: pieces) = startsWithText pieces := by
  rw [startsWithText_cons]
  split
  · next h => rw [List.isEmpty_iff.1 h]; rfl
  · rfl

namespace Frame

/-- Two open elements show the same when a tag or a note comes next. -/
structure Similar (f f' : Frame) : Prop where
  written : f'.written = f.written
  tag : f'.tag = f.tag
  scope : f'.scope = f.scope
  spacing : f'.spacing = f.spacing
  first : startsWithText f'.pieces = startsWithText f.pieces
  plain : ∀ later, startsPlain later = true → shown (f'.pieces.reverse ++ later) = shown (f.pieces.reverse ++ later)

/-- Two open elements show the same, whatever comes next. -/
structure Alike (f f' : Frame) : Prop extends Similar f f' where
  latest : f'.pieces.head?.map (·.isText) = f.pieces.head?.map (·.isText)
  any : ∀ later, shown (f'.pieces.reverse ++ later) = shown (f.pieces.reverse ++ later)

variable {f f' : Frame}

theorem Alike.refl (f : Frame) : Alike f f := ⟨⟨rfl, rfl, rfl, rfl, rfl, fun _ _ => rfl⟩, rfl, fun _ => rfl⟩

/-- A note more. -/
theorem similar_push_note (hn : n.isNote = true) : Similar f (f.push (.node n)) where
  written := rfl
  tag := rfl
  scope := rfl
  spacing := rfl
  first := startsWithText_node
  plain later hlater := by
    rw [push, List.reverse_cons, List.append_assoc]
    exact shown_append _ (shown_note hn hlater)

/-- With a node on both sides that is the same but for notes they agree again. -/
theorem Similar.push_node (h : Similar f f') (hn : withoutNotes [n'] = withoutNotes [n]) :
    Alike (f.push (.node n)) (f'.push (.node n')) := by
  have hany : ∀ later, shown ((f'.push (.node n')).pieces.reverse ++ later) =
      shown ((f.push (.node n)).pieces.reverse ++ later) := by
    intro later
    rw [push, push, List.reverse_cons, List.reverse_cons, List.append_assoc, List.append_assoc]
    exact (h.plain _ rfl).trans (shown_append _ (shown_node_congr hn later))
  exact ⟨⟨h.written, h.tag, h.scope, h.spacing, startsWithText_node.trans (h.first.trans startsWithText_node.symm),
    fun later _ => hany later⟩, rfl, hany⟩

theorem Alike.isEmpty (h : Alike f f') : f'.pieces.isEmpty = f.pieces.isEmpty := by
  have hnone := congrArg Option.isNone h.latest
  rw [Option.isNone_map, Option.isNone_map] at hnone
  cases hf' : f'.pieces <;> cases hf : f.pieces <;> simp [hf, hf'] at hnone ⊢

theorem Alike.push_text (h : Alike f f') (t : Text) : Alike (f.push (.text t)) (f'.push (.text t)) := by
  have hany : ∀ later, shown ((f'.push (.text t)).pieces.reverse ++ later) =
      shown ((f.push (.text t)).pieces.reverse ++ later) := by
    intro later
    rw [push, push, List.reverse_cons, List.reverse_cons, List.append_assoc, List.append_assoc]
    exact h.any _
  refine ⟨⟨h.written, h.tag, h.scope, h.spacing, ?_, fun later _ => hany later⟩, rfl, hany⟩
  rw [push, push, startsWithText_cons, startsWithText_cons, h.isEmpty, h.first]

theorem leavesOut_eq (f : Frame) (following : Text) :
    f.leavesOut following = (f.spacing != .preserve && f.spacing != .mixed &&
      match f.pieces.head?.map (·.isText) with
      | some latest => !latest && !startsWithText f.pieces
      | none => !(following.isEmpty || following.startsWith "</")) := by
  unfold leavesOut startsWithText
  cases f.pieces with
  | nil => rfl
  | cons p pieces => rw [List.getLast?_cons]; rfl

theorem Alike.leavesOut (h : Alike f f') (following : Text) : f'.leavesOut following = f.leavesOut following := by
  rw [leavesOut_eq, leavesOut_eq, h.spacing, h.latest, h.first]

theorem Alike.addText (h : Alike f f') (t following : Text) : Alike (f.addText t following) (f'.addText t following) := by
  unfold Frame.addText
  dsimp only
  rw [h.leavesOut following, h.spacing]
  split
  · exact h
  · obtain ⟨hsimilar, hlatest, hany⟩ := h.push_text t
    exact ⟨⟨h.written, h.tag, h.scope, rfl, hsimilar.first, hsimilar.plain⟩, hlatest, hany⟩

/-- Closed, they are the same but for notes. -/
theorem Similar.close (h : Similar f f') : withoutNotes [f'.close] = withoutNotes [f.close] := by
  have hshown := h.plain [] rfl
  rw [List.append_nil, List.append_nil] at hshown
  obtain ⟨htext, hnodes⟩ := Prod.mk.inj hshown
  rw [Frame.close, Frame.close, withoutNotes_element, withoutNotes_element, withoutNotes_nil, h.tag]
  exact congrArg₂ (fun text nodes => [Node.element f.tag text nodes []]) htext hnodes

end Frame

/-! ### Readers -/

/-- The token gives text. -/
def Token.isText : Token → Bool
  | .literal _ | .character _ | .verbatim _ => true
  | _ => false

namespace Reader

/-- Two readers show the same when a tag or a note comes next. -/
structure Similar (r r' : Reader) : Prop where
  innermost : r.innermost.Similar r'.innermost
  outer : List.Forall₂ Frame.Similar r.outer r'.outer

/-- Two readers show the same, whatever comes next. -/
structure Alike (r r' : Reader) : Prop where
  innermost : r.innermost.Alike r'.innermost
  outer : List.Forall₂ Frame.Similar r.outer r'.outer

variable {r r' last next : Reader} {token : Token} {s following behind : Text}

theorem Alike.similar (h : Alike r r') : Similar r r' := ⟨h.innermost.toSimilar, h.outer⟩

theorem similar_push_note (hn : n.isNote = true) : Similar r (r.push (.node n)) :=
  ⟨Frame.similar_push_note hn, List.forall₂_same.2 fun f _ => (Frame.Alike.refl f).toSimilar⟩

theorem Similar.push_node (h : Similar r r') (hn : withoutNotes [n'] = withoutNotes [n]) :
    Alike (r.push (.node n)) (r'.push (.node n')) :=
  ⟨h.innermost.push_node hn, h.outer⟩

theorem Similar.openElement? (h : Similar r r') {written : WrittenTag} (hopen : r.openElement? written = some next) :
    ∃ next', r'.openElement? written = some next' ∧ next.Alike next' := by
  unfold Reader.openElement? at hopen ⊢
  rw [h.innermost.scope, h.innermost.spacing, ← h.outer.length_eq]
  split at hopen
  · cases hopen
  · next hdepth =>
    rw [if_neg hdepth]
    split at hopen
    · cases hopen
    · dsimp only at hopen ⊢
      split at hopen
      · next hclosed =>
        obtain rfl := Option.some.inj hopen
        exact ⟨_, if_pos hclosed, h.push_node rfl⟩
      · next hclosed =>
        obtain rfl := Option.some.inj hopen
        exact ⟨_, if_neg hclosed, Frame.Alike.refl _, .cons h.innermost h.outer⟩

theorem Similar.closeElement? (h : Similar r r') {name : WrittenName} (hclose : r.closeElement? name = some next) :
    ∃ next', r'.closeElement? name = some next' ∧ next.Alike next' := by
  obtain ⟨innermost, outer⟩ := r
  obtain ⟨innermost', outer'⟩ := r'
  obtain ⟨hinnermost, houter⟩ := h
  unfold Reader.closeElement? at hclose ⊢
  cases houter with
  | nil => cases hclose
  | cons hf houter =>
    dsimp only at hclose hinnermost ⊢
    rw [hinnermost.written]
    split at hclose
    · next hname =>
      obtain rfl := Option.some.inj hclose
      exact ⟨_, if_pos hname, hf.push_node hinnermost.close, houter⟩
    · cases hclose

/-- With a tag or a note readers that are similar agree again. -/
theorem Similar.take? (h : Similar r r') (htoken : token.isText = false) (htake : r.take? following token = some next) :
    ∃ next', r'.take? following token = some next' ∧ next.Alike next' := by
  cases token with
  | literal | character | verbatim => cases htoken
  | note n =>
    obtain rfl := Option.some.inj htake
    exact ⟨_, rfl, h.push_node rfl⟩
  | opening tag => exact h.openElement? htake
  | closing name => exact h.closeElement? htake

/-- Readers that are alike stay so. -/
theorem Alike.take? (h : Alike r r') (htake : r.take? following token = some next) :
    ∃ next', r'.take? following token = some next' ∧ next.Alike next' := by
  cases htoken : token.isText with
  | false => exact h.similar.take? htoken htake
  | true =>
    cases token with
    | literal t =>
      obtain rfl := Option.some.inj htake
      exact ⟨_, rfl, h.innermost.addText t following, h.outer⟩
    | character c =>
      obtain rfl := Option.some.inj htake
      exact ⟨_, rfl, h.innermost.push_text [c], h.outer⟩
    | verbatim t =>
      obtain rfl := Option.some.inj htake
      exact ⟨_, rfl, h.innermost.push_text t, h.outer⟩
    | note | opening | closing => cases htoken

theorem step?_of_take? (htoken : token? s = some (token, behind)) (htake : r.take? behind token = some next) :
    r.step? s = some (next, behind) := by
  rw [step?_eq, htoken, Option.bind_some, htake]
  rfl

/-- Readers that are alike go on alike. -/
theorem Alike.steps (h : Alike r r') (hsteps : Steps r s last behind) :
    ∃ last', Steps r' s last' behind ∧ last.Alike last' := by
  induction hsteps generalizing r' with
  | refl => exact ⟨r', .refl r' _, h⟩
  | head hstep hlength _ ih =>
    obtain ⟨token, htoken, htake⟩ := exists_of_step? hstep
    obtain ⟨next', htake', halike⟩ := h.take? htake
    obtain ⟨last', hlast', hend⟩ := ih halike
    exact ⟨last', .head (step?_of_take? htoken htake') hlength hlast', hend⟩

end Reader

/-! ### Markup that follows -/

/-- A tag, a note or nothing stands at the front. -/
def startsMarkup (s : Text) : Bool := s.isEmpty || s.startsWith "<" && !s.startsWith "<![CDATA["

theorem isText_of_startsMarkup {token : Token} {u s : Text} (hwritten : token.Written u) (h : startsMarkup (u ++ s) = true) :
    token.isText = false := by
  have hempty : (u ++ s).isEmpty = false := by simp [hwritten.ne_nil]
  rw [startsMarkup, hempty, Bool.false_or, Bool.and_eq_true, Bool.not_eq_true'] at h
  obtain ⟨hopen, hverbatim⟩ := h
  cases hwritten with
  | literal hne hclear _ =>
    obtain ⟨c, u, rfl⟩ := List.exists_cons_of_ne_nil hne
    have hc : c ≠ '<' := ne_bracket_of_isLiteralPoint (hclear c List.mem_cons_self)
    have hnone : Text.dropPrefix? (c :: u ++ s) "<" = none := not_startsWith_of_ne hc
    rw [Text.startsWith, hnone] at hopen
    cases hopen
  | @character u c =>
    have hnone : Text.dropPrefix? (('&' : CodePoint) :: u ++ s) "<" = none := not_startsWith_of_ne (by decide)
    rw [Text.startsWith, hnone] at hopen
    cases hopen
  | verbatim =>
    rw [List.append_assoc, Text.startsWith, Text.dropPrefix?_append] at hverbatim
    cases hverbatim
  | comment | instruction | opening | closing => rfl

namespace Reader

variable {r r' last : Reader} {s : Text}

/-- Readers that are similar before markup, or at the end, come to the end alike. -/
theorem Similar.steps (h : Similar r r') (hs : startsMarkup s = true) (hsteps : Steps r s last []) :
    ∃ last', Steps r' s last' [] ∧ last.Similar last' := by
  cases hsteps with
  | refl => exact ⟨r', .refl r' [], h⟩
  | head hstep hlength hrest =>
    obtain ⟨token, htoken, htake⟩ := exists_of_step? hstep
    obtain ⟨u, rfl, hwritten, -⟩ := written_of_token? (fun hnil => by simp [hnil] at hlength) htoken
    obtain ⟨next', htake', halike⟩ := h.take? (isText_of_startsMarkup hwritten hs) htake
    obtain ⟨last', hlast', hend⟩ := halike.steps hrest
    exact ⟨last', .head (step?_of_take? htoken htake') hlength hlast', hend.similar⟩

end Reader

end EquationExport.Xml
