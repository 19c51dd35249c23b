import EquationExport.Xml.Node

/-!
# Trees under change

While a tree is changed its nodes keep their identity: a node that is put in a new place leaves the old one, with all that
stands in it. A forest holds the trees that there are, those of nodes that were taken out of their parent included, and no
identity twice. A node is taken out, or put among the children of an element; a node that holds the element is refused there,
for it would have to stand in itself.
-/

namespace EquationExport.Xml

/-- The element of a list at a position, which counts from the end if it is negative. -/
def itemAt? {α : Type} (index : Int) (l : List α) : Option α :=
  if 0 ≤ index then l[index.toNat]?
  else if 0 ≤ l.length + index then l[(l.length + index).toNat]?
  else none

/-- What a node is told from all others by, however alike they are. -/
abbrev Identity := Nat

/--
Trees that stand one after the other: the root of the first with its identity, its label, its children, and the trees behind
it. The label of a root is a node of which the children do not count.
-/
inductive LiveTrees where
  | nil
  | cons (id : Identity) (label : Node) (children rest : LiveTrees)

namespace LiveTrees

/-! ### Reading -/

/-- All identities in document order. -/
def identities : LiveTrees → List Identity
  | nil => []
  | cons id _ children rest => id :: (children.identities ++ rest.identities)

/-- The identities of the roots. -/
def roots : LiveTrees → List Identity
  | nil => []
  | cons id _ _ rest => id :: rest.roots

/-- The trees as nodes, without their identities. -/
def nodes : LiveTrees → List Node
  | nil => []
  | cons _ label children rest => label.withChildren children.nodes :: rest.nodes

/-- The label of a node, and its children. -/
def find? (x : Identity) : LiveTrees → Option (Node × LiveTrees)
  | nil => none
  | cons id label children rest =>
    if id = x then some (label, children) else (children.find? x).or (rest.find? x)

/-- The identities from the root of a tree down to a node in it; none if the node is not there. -/
def line (x : Identity) : LiveTrees → List Identity
  | nil => []
  | cons id _ children rest =>
    if id = x then [x]
    else match children.line x with
      | [] => rest.line x
      | above => id :: above

/-! ### Change -/

/-- Trees and the trees behind them. -/
def append : LiveTrees → LiveTrees → LiveTrees
  | nil, behind => behind
  | cons id label children rest, behind => cons id label children (rest.append behind)

/-- The tree of a node, as a tree of its own; nothing if the node is not there. -/
def tree (x : Identity) (trees : LiveTrees) : LiveTrees :=
  match trees.find? x with
  | some (label, children) => cons x label children nil
  | none => nil

/-- The trees without a node and all that it holds. -/
def without (x : Identity) : LiveTrees → LiveTrees
  | nil => nil
  | cons id label children rest =>
    if id = x then rest.without x else cons id label (children.without x) (rest.without x)

/-- Changes the children of a node. -/
def change (p : Identity) (f : LiveTrees → LiveTrees) : LiveTrees → LiveTrees
  | nil => nil
  | cons id label children rest =>
    cons id label (if id = p then f children else children.change p f) (rest.change p f)

/-- Puts trees before the root with an identity; behind all if there is no such root. -/
def place (anchor : Option Identity) (new : LiveTrees) : LiveTrees → LiveTrees
  | nil => new
  | cons id label children rest =>
    if some id = anchor then new.append (cons id label children rest)
    else cons id label children (place anchor new rest)

/-! ### Numbering -/

mutual

/-- A node with the trees behind it; the nodes in it are numbered in document order. -/
def numberNode (next : Identity) (rest : LiveTrees) : Node → LiveTrees
  | .element tag text children tail => cons next (.element tag text [] tail) (number (next + 1) children) rest
  | .comment content tail => cons next (.comment content tail) nil rest
  | .instruction target content tail => cons next (.instruction target content tail) nil rest

/-- Nodes of which all that they hold is numbered in document order. -/
def number (next : Identity) : List Node → LiveTrees
  | [] => nil
  | node :: rest => numberNode next (number (next + node.subtree.length) rest) node

end

mutual

theorem identities_numberNode (next : Identity) (rest : LiveTrees) : ∀ node : Node,
    (numberNode next rest node).identities = List.range' next node.subtree.length ++ rest.identities
  | .element tag text children tail => by
    rw [numberNode, identities, identities_number, Node.subtree, List.length_cons, List.range'_succ]
    rfl
  | .comment content tail => rfl
  | .instruction target content tail => rfl

theorem identities_number (next : Identity) : ∀ nodes : List Node,
    (number next nodes).identities = List.range' next (Node.subtrees nodes).length
  | [] => rfl
  | node :: rest => by
    rw [number, identities_numberNode, identities_number, Node.subtrees_cons, List.length_append, List.range'_append_1]

end

/-! ### No identity is lost or doubled -/

variable {trees new : LiveTrees} {x p : Identity}

@[simp] theorem identities_append (a b : LiveTrees) : (a.append b).identities = a.identities ++ b.identities := by
  induction a with
  | nil => rfl
  | cons id label children rest _ ih => simp [append, identities, ih]

/-- No identity is there twice just if the root, what it holds and what stands behind have none in common. -/
theorem nodup_cons_iff {id : Identity} {label : Node} {children rest : LiveTrees} :
    (cons id label children rest).identities.Nodup ↔ (id ∉ children.identities ∧ id ∉ rest.identities) ∧
      children.identities.Nodup ∧ rest.identities.Nodup ∧ ∀ x ∈ children.identities, x ∉ rest.identities := by
  rw [identities, List.nodup_cons, List.nodup_append, List.mem_append, not_or]
  exact and_congr_right' (and_congr_right' (and_congr_right' ⟨fun h x hx hin => h x hx x hin rfl,
    fun h x hx y hy heq => h x hx (heq ▸ hy)⟩))

theorem find?_eq_none_iff : trees.find? x = none ↔ x ∉ trees.identities := by
  induction trees with
  | nil => simp [find?, identities]
  | cons id label children rest ihc ihr =>
    by_cases h : id = x
    · simp [find?, identities, h]
    · simp [find?, identities, h, Ne.symm h, ihc, ihr]

theorem exists_find? (h : x ∈ trees.identities) : ∃ found, trees.find? x = some found :=
  Option.ne_none_iff_exists'.1 fun hnone => find?_eq_none_iff.1 hnone h

theorem without_of_not_mem (h : x ∉ trees.identities) : trees.without x = trees := by
  induction trees with
  | nil => rfl
  | cons id label children rest ihc ihr =>
    simp only [identities, List.mem_cons, List.mem_append, not_or] at h
    rw [without, if_neg (Ne.symm h.1), ihc h.2.1, ihr h.2.2]

theorem change_of_not_mem {f : LiveTrees → LiveTrees} (h : p ∉ trees.identities) : trees.change p f = trees := by
  induction trees with
  | nil => rfl
  | cons id label children rest ihc ihr =>
    simp only [identities, List.mem_cons, List.mem_append, not_or] at h
    rw [change, if_neg (Ne.symm h.1), ihc h.2.1, ihr h.2.2]

theorem tree_of_not_mem (h : x ∉ trees.identities) : trees.tree x = nil := by
  rw [tree, find?_eq_none_iff.2 h]

theorem tree_cons_self (id : Identity) (label : Node) (children rest : LiveTrees) :
    (cons id label children rest).tree id = cons id label children nil := by
  simp [tree, find?]

/-- Below a root with another identity, the tree of a node stands among the children or behind. -/
theorem tree_cons_of_ne {id : Identity} {label : Node} {children rest : LiveTrees} (h : id ≠ x) :
    (cons id label children rest).tree x = if x ∈ children.identities then children.tree x else rest.tree x := by
  simp only [tree, find?, if_neg h]
  by_cases hmem : x ∈ children.identities
  · obtain ⟨found, hfound⟩ := exists_find? hmem
    simp [hfound, hmem]
  · simp [find?_eq_none_iff.2 hmem, hmem]

/-- The tree of a node and what is left without it have all identities between them. -/
theorem perm_without (x : Identity) (h : trees.identities.Nodup) :
    ((trees.tree x).identities ++ (trees.without x).identities).Perm trees.identities := by
  induction trees with
  | nil => exact .nil
  | cons id label children rest ihc ihr =>
    obtain ⟨hid, hc, hr, hapart⟩ := nodup_cons_iff.1 h
    by_cases hx : id = x
    · subst hx
      rw [tree_cons_self, without, if_pos rfl, without_of_not_mem hid.2]
      simp [identities]
    rw [tree_cons_of_ne hx, without, if_neg hx]
    split
    · next hmem =>
      rw [without_of_not_mem (hapart x hmem)]
      refine List.perm_middle.trans (.cons id ?_)
      rw [← List.append_assoc]
      exact (ihc hc).append_right rest.identities
    · next hmem =>
      rw [without_of_not_mem hmem]
      refine List.perm_middle.trans (.cons id ?_)
      exact (List.perm_append_comm_assoc ..).trans ((ihr hr).append_left children.identities)

/-- A node and what is left without it have no identity in common. -/
theorem nodup_tree_append_without (x : Identity) (h : trees.identities.Nodup) :
    ((trees.tree x).identities ++ (trees.without x).identities).Nodup := (perm_without x h).nodup_iff.2 h

theorem perm_place (anchor : Option Identity) (new trees : LiveTrees) :
    (place anchor new trees).identities.Perm (new.identities ++ trees.identities) := by
  induction trees with
  | nil => simp [place, identities]
  | cons id label children rest _ ih =>
    unfold place
    split
    · simp
    · refine (List.Perm.cons id (ih.append_left children.identities)).trans ?_
      exact (List.Perm.cons id (List.perm_append_comm_assoc ..)).trans List.perm_middle.symm

/-- What is added to the children of one node is added to the whole. -/
theorem perm_change {f : LiveTrees → LiveTrees} {added : List Identity}
    (hf : ∀ children, (f children).identities.Perm (added ++ children.identities))
    (h : trees.identities.Nodup) (hp : p ∈ trees.identities) :
    (trees.change p f).identities.Perm (added ++ trees.identities) := by
  induction trees with
  | nil => cases hp
  | cons id label children rest ihc ihr =>
    obtain ⟨hid, hc, hr, hapart⟩ := nodup_cons_iff.1 h
    have hfront : ∀ l : List Identity, l.Perm (added ++ children.identities) →
        (id :: (l ++ rest.identities)).Perm (added ++ id :: (children.identities ++ rest.identities)) := fun l hl => by
      refine ((hl.append_right rest.identities).cons id).trans ?_
      rw [List.append_assoc]
      exact List.perm_middle.symm
    rw [change]
    by_cases hx : id = p
    · subst hx
      rw [if_pos rfl, change_of_not_mem hid.2]
      exact hfront _ (hf children)
    rw [if_neg hx]
    by_cases hmem : p ∈ children.identities
    · rw [change_of_not_mem (hapart p hmem)]
      exact hfront _ (ihc hc hmem)
    · have hrest : p ∈ rest.identities := by simpa [identities, Ne.symm hx, hmem] using hp
      rw [change_of_not_mem hmem]
      refine ((ihr hr hrest).append_left children.identities).cons id |>.trans ?_
      exact (List.Perm.cons id (List.perm_append_comm_assoc ..)).trans List.perm_middle.symm

/-- No node that comes to stand alone is in the forest twice. -/
theorem nodup_alone (h : trees.identities.Nodup) : ((trees.without x).append (trees.tree x)).identities.Nodup := by
  rw [identities_append]
  exact (List.perm_append_comm.trans (perm_without x h)).nodup_iff.2 h

/-- No node that is moved to the children of another is in the forest twice. -/
theorem nodup_move (anchor : Option Identity) (h : trees.identities.Nodup) :
    ((trees.without x).change p (place anchor (trees.tree x))).identities.Nodup := by
  have hboth := nodup_tree_append_without x h
  have hleft : (trees.without x).identities.Nodup := (List.nodup_append.1 hboth).2.1
  by_cases hp : p ∈ (trees.without x).identities
  · exact (perm_change (perm_place anchor (trees.tree x)) hleft hp).nodup_iff.2 hboth
  · rwa [change_of_not_mem hp]

end LiveTrees

/-! ### Forests -/

/-- The trees that there are while one of them is changed. -/
structure LiveForest where
  trees : LiveTrees
  /-- No identity is there twice. -/
  distinct : trees.identities.Nodup

/-- Why a change of a forest was refused. -/
inductive Refusal where
  /-- No node has the identity. -/
  | absent
  /-- The node is not among the children. -/
  | noChild
  /-- Only elements have children. -/
  | noElement
  /-- A node cannot stand in itself. -/
  | cycle
  deriving DecidableEq

namespace LiveForest

/-- All identities, tree after tree. -/
def identities (f : LiveForest) : List Identity := f.trees.identities

/-- The identities of the children of a node, in order. -/
def children (f : LiveForest) (x : Identity) : List Identity :=
  ((f.trees.find? x).map (·.2.roots)).getD []

/-- The label of a node. -/
def label? (f : LiveForest) (x : Identity) : Option Node := (f.trees.find? x).map (·.1)

/-- A node with all that it holds, as it reads without identities. -/
def node (f : LiveForest) (x : Identity) : Node := (f.trees.tree x).nodes.headD default

/-- The identities from the root of the tree that a node stands in down to the node. -/
def line (f : LiveForest) (x : Identity) : List Identity := f.trees.line x

/-- The node is there and is an element. -/
def IsElement (f : LiveForest) (x : Identity) : Prop := ((f.label? x).bind (·.tag?)).isSome = true

instance (f : LiveForest) (x : Identity) : Decidable (f.IsElement x) :=
  inferInstanceAs (Decidable (_ = true))

/-- An identity above all that are in use. -/
def unused (f : LiveForest) : Identity := f.identities.foldr max 0 + 1

theorem lt_unused (f : LiveForest) {x : Identity} (hx : x ∈ f.identities) : x < f.unused := by
  have hle : ∀ (l : List Identity), ∀ y ∈ l, y ≤ l.foldr max 0 := by
    intro l
    induction l with
    | nil => simp
    | cons z l ih =>
      intro y hy
      rcases List.mem_cons.1 hy with rfl | hy
      · exact Nat.le_max_left ..
      · exact Nat.le_trans (ih y hy) (Nat.le_max_right ..)
  exact Nat.lt_succ_of_le (hle f.identities x hx)

theorem unused_not_mem (f : LiveForest) : f.unused ∉ f.identities := fun hmem => Nat.lt_irrefl _ (f.lt_unused hmem)

/-- Nodes as trees, numbered from zero on. -/
def ofNodes (nodes : List Node) : LiveForest where
  trees := .number 0 nodes
  distinct := by
    rw [LiveTrees.identities_number]
    exact List.nodup_range'

/-- The forest with a new tree, which reads as a node; its root is the first identity that was not in use. -/
def grow (f : LiveForest) (node : Node) : LiveForest where
  trees := f.trees.append (.number f.unused [node])
  distinct := by
    rw [LiveTrees.identities_append, LiveTrees.identities_number]
    refine List.nodup_append.2 ⟨f.distinct, List.nodup_range', ?_⟩
    rintro x hx y hy rfl
    exact Nat.not_lt.2 (List.mem_range'_1.1 hy).1 (f.lt_unused hx)

/-- The forest in which a node stands in a tree of its own. -/
def detach (f : LiveForest) (x : Identity) : LiveForest where
  trees := (f.trees.without x).append (f.trees.tree x)
  distinct := LiveTrees.nodup_alone f.distinct

/-- The forest in which a node stands among the children of another, before one of them or behind all. -/
def move (f : LiveForest) (p : Identity) (anchor : Option Identity) (x : Identity) : LiveForest where
  trees := (f.trees.without x).change p (LiveTrees.place anchor (f.trees.tree x))
  distinct := LiveTrees.nodup_move anchor f.distinct

/-- Takes a child out of its parent, with all that it holds. -/
def remove (f : LiveForest) (p x : Identity) : Except Refusal LiveForest :=
  if x ∈ f.children p then .ok (f.detach x) else .error .noChild

/--
Puts a node among the children of an element, before the child at a position, or behind all if there is none. It leaves the
place where it stood, with all that it holds.
-/
def insert (f : LiveForest) (p : Identity) (index : Int) (x : Identity) : Except Refusal LiveForest :=
  let anchor := itemAt? index (f.children p)
  if ¬ f.IsElement p then .error .noElement
  else if x ∉ f.identities then .error .absent
  else if x ∈ f.line p then .error .cycle
  else if anchor = some x then .ok f
  else .ok (f.move p anchor x)

end LiveForest

end EquationExport.Xml
