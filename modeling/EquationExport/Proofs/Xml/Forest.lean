import EquationExport.Xml.Traverse

/-!
# Forests

Neighbours and all that they hold: induction over a list of trees that goes into the first tree and on to the
ones behind it, and what holds of every node, in every tree.
-/

namespace EquationExport.Xml.Node

/-! ### Induction -/

mutual

/-- One step of the induction over forests: a tree in front of a forest. -/
theorem forest_step {Q : List Node → Prop} (nil : Q [])
    (element : ∀ tag text children tail rest, Q children → Q rest → Q (element tag text children tail :: rest))
    (comment : ∀ content tail rest, Q rest → Q (comment content tail :: rest))
    (instruction : ∀ target content tail rest, Q rest → Q (instruction target content tail :: rest)) :
    ∀ (node : Node) (rest : List Node), Q rest → Q (node :: rest)
  | .element tag text children tail, rest, h =>
    element tag text children tail rest (forest_induction nil element comment instruction children) h
  | .comment content tail, rest, h => comment content tail rest h
  | .instruction target content tail, rest, h => instruction target content tail rest h

/-- Induction over a forest: over what the first tree holds, and over the trees behind it. -/
@[elab_as_elim]
theorem forest_induction {Q : List Node → Prop} (nil : Q [])
    (element : ∀ tag text children tail rest, Q children → Q rest → Q (element tag text children tail :: rest))
    (comment : ∀ content tail rest, Q rest → Q (comment content tail :: rest))
    (instruction : ∀ target content tail rest, Q rest → Q (instruction target content tail :: rest)) :
    ∀ nodes : List Node, Q nodes
  | [] => nil
  | node :: rest =>
    forest_step nil element comment instruction node rest (forest_induction nil element comment instruction rest)

end

/-- Induction over a tree: over all the trees below its root. -/
@[elab_as_elim]
theorem tree_induction {P : Node → Prop}
    (element : ∀ tag text children tail, (∀ n ∈ children, P n) → P (element tag text children tail))
    (comment : ∀ content tail, P (comment content tail))
    (instruction : ∀ target content tail, P (instruction target content tail)) (node : Node) : P node := by
  suffices h : ∀ nodes : List Node, ∀ n ∈ nodes, P n from h [node] node (by simp)
  intro nodes
  induction nodes using forest_induction with
  | nil => simp
  | element tag text children tail rest ihc ihr => simpa using ⟨element tag text children tail ihc, ihr⟩
  | comment content tail rest ih => simpa using ⟨comment content tail, ih⟩
  | instruction target content tail rest ih => simpa using ⟨instruction target content tail, ih⟩

/-! ### What holds everywhere -/

/-- Every node of the forest, at any depth, has the property. -/
def Everywhere (P : Node → Prop) (nodes : List Node) : Prop := ∀ node ∈ subtrees nodes, P node

instance (P : Node → Prop) [DecidablePred P] (nodes : List Node) : Decidable (Everywhere P nodes) :=
  inferInstanceAs (Decidable (∀ node ∈ subtrees nodes, P node))

variable {P Q : Node → Prop} {a b : List Node} {node : Node}

@[simp] theorem children_element (tag : Tag) (text : Option Text) (l : List Node) (tail : Text) :
    (element tag text l tail).children = l := rfl

@[simp] theorem withChildren_element (tag : Tag) (text : Option Text) (l l' : List Node) (tail : Text) :
    (element tag text l tail).withChildren l' = element tag text l' tail := rfl

@[simp] theorem everywhere_nil : Everywhere P [] := by simp [Everywhere]

theorem everywhere_append : Everywhere P (a ++ b) ↔ Everywhere P a ∧ Everywhere P b := by
  simp only [Everywhere, subtrees_append, List.mem_append]
  constructor
  · intro h
    exact ⟨fun n hn => h n (.inl hn), fun n hn => h n (.inr hn)⟩
  · rintro ⟨ha, hb⟩ n (hn | hn)
    · exact ha n hn
    · exact hb n hn

theorem everywhere_cons : Everywhere P (node :: b) ↔ Everywhere P [node] ∧ Everywhere P b :=
  everywhere_append (a := [node])

/-- Every node of a tree: its root, and every node of the forest below. -/
theorem everywhere_singleton : Everywhere P [node] ↔ P node ∧ Everywhere P node.children := by
  cases node <;> simp [Everywhere, subtree, children]

theorem Everywhere.mono (h : Everywhere P a) (hPQ : ∀ n, P n → Q n) : Everywhere Q a :=
  fun n hn => hPQ n (h n hn)

theorem Everywhere.of_mem (h : Everywhere P a) (hmem : node ∈ a) : Everywhere P [node] := by
  obtain ⟨front, rest, rfl⟩ := List.append_of_mem hmem
  exact (everywhere_cons.1 (everywhere_append.1 h).2).1

theorem everywhere_iff_of_mem : Everywhere P a ↔ ∀ n ∈ a, Everywhere P [n] := by
  induction a with
  | nil => simp
  | cons node a ih =>
    rw [everywhere_cons, ih]
    simp

theorem Everywhere.sublist (h : Everywhere P a) (hsub : b.Sublist a) : Everywhere P b :=
  everywhere_iff_of_mem.2 fun _ hmem => h.of_mem (hsub.subset hmem)

/-- In the forest below a tree that stands in it. -/
theorem Everywhere.children (h : Everywhere P a) (hmem : node ∈ a) : Everywhere P node.children :=
  (everywhere_singleton.1 (h.of_mem hmem)).2

/-- A node and all that it holds stand together in document order. -/
theorem isInfix_subtree (h : node ∈ subtrees a) : subtree node <:+: subtrees a := by
  induction a using forest_induction with
  | nil => cases h
  | element tag text children tail rest ihc ihr =>
    rw [subtrees_cons] at h ⊢
    rcases List.mem_append.1 h with h | h
    · refine List.IsInfix.trans ?_ (List.prefix_append _ _).isInfix
      rcases List.mem_cons.1 h with rfl | h
      · exact List.infix_rfl
      · exact (ihc h).trans (List.suffix_cons _ _).isInfix
    · exact (ihr h).trans (List.suffix_append _ _).isInfix
  | comment content tail rest ih | instruction target content tail rest ih =>
    rcases List.mem_cons.1 h with rfl | h
    · exact (List.prefix_append [_] _).isInfix
    · exact (ih h).trans (List.suffix_cons _ _).isInfix

/-- Below each node of a forest, what holds everywhere in the forest. -/
theorem Everywhere.below (h : Everywhere P a) : Everywhere (fun n => Everywhere P n.children) a := by
  intro n hn m hm
  refine h m ((isInfix_subtree hn).subset ?_)
  cases n with
  | element => exact List.mem_cons_of_mem _ hm
  | comment | instruction => cases hm

/-! ### What the name of an element decides -/

/-- The property depends on the name of an element alone. -/
def ByName (P : Node → Prop) : Prop := ∀ n m : Node, n.name? = m.name? → P n → P m

@[simp] theorem name?_withChildren (node : Node) (l : List Node) : (node.withChildren l).name? = node.name? := by
  cases node <;> rfl

@[simp] theorem Tag.name_setAttribute (tag : Tag) (name : Name) (value : Text) :
    (tag.setAttribute name value).name = tag.name := by
  unfold Tag.setAttribute
  split <;> rfl

@[simp] theorem name?_setAttribute (node : Node) (name : Name) (value : Text) :
    (node.setAttribute name value).name? = node.name? := by
  cases node with
  | element tag text children tail => exact congrArg some (Tag.name_setAttribute tag name value)
  | comment | instruction => rfl

@[simp] theorem children_setAttribute (node : Node) (name : Name) (value : Text) :
    (node.setAttribute name value).children = node.children := by
  cases node <;> rfl

/-! ### What does not depend on the children -/

/-- The property of an element does not depend on its children. -/
def Local (P : Node → Prop) : Prop :=
  ∀ tag text l l' tail, P (element tag text l tail) → P (element tag text l' tail)

theorem ByName.isLocal (hP : ByName P) : Local P := fun _ _ _ _ _ => hP _ _ rfl

variable (hP : Local P)
include hP

/-- A tree with another forest below its root. -/
theorem Local.withChildren (h : P node) (hl : Everywhere P b) : Everywhere P [node.withChildren b] := by
  cases node with
  | element tag text l tail => exact everywhere_singleton.2 ⟨hP tag text l b tail h, hl⟩
  | comment | instruction => exact everywhere_singleton.2 ⟨h, everywhere_nil⟩

theorem Local.rebuildAll {f : Node → List Node} (hf : ∀ n, Everywhere P [n] → Everywhere P (f n)) :
    ∀ nodes, Everywhere P nodes → Everywhere P (rebuildAll f nodes) := by
  intro nodes
  induction nodes using forest_induction with
  | nil => intro _; exact everywhere_nil
  | element tag text children tail rest ihc ihr =>
    intro h
    obtain ⟨hnode, hrest⟩ := everywhere_cons.1 h
    obtain ⟨hroot, hbelow⟩ := everywhere_singleton.1 hnode
    refine everywhere_append.2 ⟨hf _ ?_, ihr hrest⟩
    exact everywhere_singleton.2 ⟨hP _ _ _ _ _ hroot, ihc hbelow⟩
  | comment content tail rest ih | instruction target content tail rest ih =>
    intro h
    obtain ⟨hnode, hrest⟩ := everywhere_cons.1 h
    exact everywhere_append.2 ⟨hf _ hnode, ih hrest⟩

theorem Local.pruneAll (keep : Option Tag → Node → Bool) :
    ∀ nodes parent, Everywhere P nodes → Everywhere P (pruneAll keep parent nodes) := by
  intro nodes
  induction nodes using forest_induction with
  | nil => intro _ _; exact everywhere_nil
  | element tag text children tail rest ihc ihr =>
    intro parent h
    obtain ⟨hnode, hrest⟩ := everywhere_cons.1 h
    obtain ⟨hroot, hbelow⟩ := everywhere_singleton.1 hnode
    simp only [Xml.pruneAll]
    split
    · refine everywhere_cons.2 ⟨everywhere_singleton.2 ⟨hP _ _ _ _ _ hroot, ?_⟩, ihr parent hrest⟩
      exact ihc (some tag) hbelow
    · exact ihr parent hrest
  | comment content tail rest ih | instruction target content tail rest ih =>
    intro parent h
    obtain ⟨hnode, hrest⟩ := everywhere_cons.1 h
    simp only [Xml.pruneAll]
    split
    · exact everywhere_cons.2 ⟨hnode, ih parent hrest⟩
    · exact ih parent hrest

end EquationExport.Xml.Node
