import EquationExport.Proofs.Xml.Tokens

/-!
# The tags that a reader has met

The elements that a reader has open and those in what it has taken up have tags, which in document order are the tags
of the opening tokens it has read. A token that opens an element puts its tag at the end, and its declarations in front
of the scope; another token leaves the tags as they are.
-/

namespace EquationExport.Xml

open Node

variable {r r' : Reader} {following : Text} {token : Token}

/-! ### Tags in document order -/

/-- The tags of the elements in some trees. -/
def tagsOf (l : List Node) : List Tag := (subtrees l).filterMap (·.tag?)

theorem tagsOf_append (a b : List Node) : tagsOf (a ++ b) = tagsOf a ++ tagsOf b := by
  rw [tagsOf, subtrees_append, List.filterMap_append]
  rfl

theorem tagsOf_cons (node : Node) (rest : List Node) : tagsOf (node :: rest) = tagsOf [node] ++ tagsOf rest :=
  tagsOf_append [node] rest

theorem tagsOf_element (tag : Tag) (text : Option Text) (children : List Node) (tail : Text) :
    tagsOf [.element tag text children tail] = tag :: tagsOf children := by
  simp [tagsOf, subtree, tag?]

theorem tagsOf_withTail (node : Node) (tail : Text) : tagsOf [node.withTail tail] = tagsOf [node] := by
  cases node with
  | element tag text children tail' => rw [withTail, tagsOf_element, tagsOf_element]
  | comment | instruction => rfl

theorem mem_tagsOf {l : List Node} {tag : Tag} : tag ∈ tagsOf l ↔ ∃ n ∈ subtrees l, n.tag? = some tag := List.mem_filterMap

/-- The tags in a piece of content. -/
def Piece.tags : Piece → List Tag
  | .text _ => []
  | .node n => tagsOf [n]

theorem tagsOf_assemble (pieces : List Piece) : tagsOf (assemble pieces).2 = pieces.flatMap Piece.tags := by
  induction pieces with
  | nil => rfl
  | cons p pieces ih =>
    rw [List.flatMap_cons, ← ih]
    cases p with
    | text t => rfl
    | node n => exact (tagsOf_cons _ _).trans (congrArg (· ++ _) (tagsOf_withTail n _))

/-- The tag of an open element and those in its content so far. -/
def Frame.tags (f : Frame) : List Tag := f.tag :: f.pieces.reverse.flatMap Piece.tags

theorem Frame.tags_push (f : Frame) (p : Piece) : (f.push p).tags = f.tags ++ p.tags := by
  simp [Frame.tags, Frame.push]

theorem tagsOf_close (f : Frame) : tagsOf [f.close] = f.tags := by
  rw [Frame.close, tagsOf_element, tagsOf_assemble, Frame.tags]

namespace Reader

/-- The tags of the open elements and of what they hold so far. -/
def tags (r : Reader) : List Tag := r.outer.reverse.flatMap Frame.tags ++ r.innermost.tags

/-- The scopes inside the open elements. -/
def scopes (r : Reader) : List Scope := r.innermost.scope :: r.outer.map (·.scope)

/-! ### Steps -/

theorem tags_push (r : Reader) (p : Piece) : (r.push p).tags = r.tags ++ p.tags := by
  rw [tags, tags, push, Frame.tags_push, List.append_assoc]

theorem addText_same (f : Frame) (t following : Text) :
    (f.addText t following).tags = f.tags ∧ (f.addText t following).scope = f.scope := by
  unfold Frame.addText
  dsimp only
  split
  · exact ⟨rfl, rfl⟩
  · exact ⟨by simp [Frame.tags, Piece.tags], rfl⟩

/-- A closed element is moved into the one around it. -/
theorem tags_closeElement? {name : WrittenName} (h : r.closeElement? name = some r') :
    r'.tags = r.tags ∧ r'.scopes ⊆ r.scopes := by
  unfold closeElement? at h
  split at h
  · cases h
  · next f outer houter =>
    split at h
    · obtain rfl := Option.some.inj h
      rw [tags, tags, scopes, scopes, houter, Frame.tags_push, Piece.tags, tagsOf_close, List.reverse_cons,
        List.flatMap_append, List.flatMap_singleton, List.append_assoc]
      exact ⟨rfl, List.subset_cons_self _ _⟩
    · cases h

/-- An element that is opened brings its tag in, and its scope if it stays open. -/
theorem tags_openElement? {written : WrittenTag} (h : r.openElement? written = some r') :
    ∃ tag scope, resolve? r.innermost.scope written = some (tag, scope) ∧ r'.tags = r.tags ++ [tag] ∧
      r'.scopes ⊆ scope :: r.scopes := by
  unfold openElement? at h
  split at h
  · cases h
  · split at h
    · cases h
    · next tag scope hresolve =>
      refine ⟨tag, scope, hresolve, ?_⟩
      dsimp only at h
      split at h
      · obtain rfl := Option.some.inj h
        rw [tags_push, Piece.tags, tagsOf_close]
        exact ⟨rfl, List.subset_cons_self _ _⟩
      · obtain rfl := Option.some.inj h
        rw [tags, tags, List.reverse_cons, List.flatMap_append, List.flatMap_singleton]
        exact ⟨rfl, List.Subset.refl _⟩

/-- A token that is no opening tag and no comment or instruction leaves the tags. -/
theorem tags_take? (hopening : ∀ tag, token ≠ .opening tag) (hnote : ∀ n, token ≠ .note n)
    (h : r.take? following token = some r') : r'.tags = r.tags ∧ r'.scopes ⊆ r.scopes := by
  cases token with
  | literal t =>
    obtain rfl := Option.some.inj h
    obtain ⟨htags, hscope⟩ := addText_same r.innermost t following
    rw [tags, tags, scopes, scopes, htags, hscope]
    exact ⟨rfl, List.Subset.refl _⟩
  | character c =>
    obtain rfl := Option.some.inj h
    exact ⟨(tags_push r _).trans (List.append_nil _), List.Subset.refl _⟩
  | verbatim t =>
    obtain rfl := Option.some.inj h
    exact ⟨(tags_push r _).trans (List.append_nil _), List.Subset.refl _⟩
  | note n => exact absurd rfl (hnote n)
  | opening tag => exact absurd rfl (hopening tag)
  | closing name => exact tags_closeElement? h

end Reader

end EquationExport.Xml
