import EquationExport.Proofs.Xml.LiveTrees

/-!
# Forests under change

A child that is taken out, and a node that is put among the children of an element: what becomes of the children, and what is
left alone. The element itself keeps its label and its place, whatever happens to its children. A node that neither
holds the element nor what is moved reads the same, and so does what is moved.
-/

namespace EquationExport.Xml.LiveForest

variable {f g h : LiveForest} {p x : Identity} {index : Int}

/-! ### What a step leaves alone -/

/-- For a node `p`, what every step on its children leaves alone: its label, its line, and which nodes there are. -/
structure Keeps (p : Identity) (f g : LiveForest) : Prop where
  label? : g.label? p = f.label? p
  line : g.line p = f.line p
  identities : g.identities.Perm f.identities

theorem Keeps.refl (p : Identity) (f : LiveForest) : Keeps p f f := ⟨rfl, rfl, .refl _⟩

theorem Keeps.trans (hfg : Keeps p f g) (hgh : Keeps p g h) : Keeps p f h :=
  ⟨hgh.label?.trans hfg.label?, hgh.line.trans hfg.line, hgh.identities.trans hfg.identities⟩

theorem Keeps.isElement_iff (hfg : Keeps p f g) : g.IsElement p ↔ f.IsElement p := by
  rw [IsElement, IsElement, hfg.label?]

theorem exists_of_isElement (hp : f.IsElement p) : ∃ label children, f.trees.find? p = some (label, children) := by
  cases hfound : f.trees.find? p with
  | none => simp [IsElement, LiveForest.label?, hfound] at hp
  | some found => exact ⟨found.1, found.2, rfl⟩

theorem children_eq {label : Node} {children : LiveTrees} (hfound : f.trees.find? p = some (label, children)) :
    f.children p = children.roots := by
  rw [LiveForest.children, hfound]
  rfl

/-- No child is there twice. -/
theorem nodup_children (f : LiveForest) (p : Identity) : (f.children p).Nodup := by
  cases hfound : f.trees.find? p with
  | none => simp [LiveForest.children, hfound]
  | some found =>
    rw [children_eq hfound]
    exact f.distinct.sublist ((LiveTrees.roots_sublist found.2).trans (LiveTrees.sublist_of_find? hfound))

/-- A node that has a child is there, and the child is the root of one of the trees in it. -/
theorem exists_of_mem_children (hx : x ∈ f.children p) :
    ∃ label children, f.trees.find? p = some (label, children) ∧ x ∈ children.roots := by
  cases hfound : f.trees.find? p with
  | none => simp [LiveForest.children, hfound] at hx
  | some found => exact ⟨found.1, found.2, rfl, by rwa [children_eq hfound] at hx⟩

theorem mem_identities_of_mem_children (hx : x ∈ f.children p) : x ∈ f.identities := by
  obtain ⟨label, children, hfound, hroot⟩ := exists_of_mem_children hx
  exact (LiveTrees.sublist_of_find? hfound).subset ((LiveTrees.roots_sublist children).subset hroot)

theorem mem_identities_of_isElement (hp : f.IsElement p) : p ∈ f.identities := by
  obtain ⟨label, children, hfound⟩ := exists_of_isElement hp
  exact LiveTrees.mem_of_find? hfound

/-- No child of a node is on its line. -/
theorem not_mem_line_of_mem_children (hx : x ∈ f.children p) : x ∉ f.line p := by
  obtain ⟨label, children, hfound, hroot⟩ := exists_of_mem_children hx
  exact LiveTrees.not_mem_line_of_find? f.distinct hfound ((LiveTrees.roots_sublist children).subset hroot)

/-- A node reads as its label, with its children. -/
theorem node_eq {label : Node} (hlabel : f.label? p = some label) :
    f.node p = label.withChildren ((f.children p).map f.node) := by
  cases hfound : f.trees.find? p with
  | none => simp [LiveForest.label?, hfound] at hlabel
  | some found =>
    have hd : found.2.identities.Nodup := f.distinct.sublist (LiveTrees.sublist_of_find? hfound)
    obtain rfl : found.1 = label := by simpa [LiveForest.label?, hfound] using hlabel
    have hmap : found.2.nodes = (f.children p).map f.node := by
      rw [children_eq hfound, LiveTrees.nodes_eq_map_roots hd]
      refine List.map_congr_left fun x hx => ?_
      rw [node, LiveTrees.tree_below f.distinct hfound ((LiveTrees.roots_sublist found.2).subset hx)]
    rw [← hmap, node, LiveTrees.tree_eq_cons hfound]
    rfl

theorem children_node (hp : f.IsElement p) : (f.node p).children = (f.children p).map f.node := by
  rw [IsElement] at hp
  cases hlabel : f.label? p with
  | none => rw [hlabel] at hp; cases hp
  | some label =>
    rw [hlabel] at hp
    rw [node_eq hlabel]
    cases label with
    | element => rfl
    | comment | instruction => cases hp

/-! ### Taking a child out -/

theorem find?_detach {found : Node × LiveTrees} (hfound : f.trees.find? p = some found) (hline : x ∉ f.line p) :
    (f.detach x).trees.find? p = some (found.1, found.2.without x) := by
  rw [detach, LiveTrees.find?_append, LiveTrees.find?_without hline, hfound, Option.map_some, Option.some_or]

/-- A node that another one is not taken out with stays among the trees. -/
theorem mem_without (hp : p ∈ f.identities) (hline : x ∉ f.line p) : p ∈ (f.trees.without x).identities := by
  obtain ⟨found, hfound⟩ := LiveTrees.exists_find? hp
  exact LiveTrees.mem_of_find? (by rw [LiveTrees.find?_without hline, hfound, Option.map_some])

theorem keeps_detach (hp : p ∈ f.identities) (hline : x ∉ f.line p) : Keeps p f (f.detach x) := by
  obtain ⟨found, hfound⟩ := LiveTrees.exists_find? hp
  refine ⟨by simp only [LiveForest.label?, find?_detach hfound hline, hfound, Option.map_some], ?_, ?_⟩
  · rw [LiveForest.line, detach, LiveTrees.line_append_of_mem _ (mem_without hp hline), LiveTrees.line_without hline,
      LiveForest.line]
  · rw [LiveForest.identities, detach, LiveTrees.identities_append]
    exact List.perm_append_comm.trans (LiveTrees.perm_without x f.distinct)

theorem remove_spec (hx : x ∈ f.children p) :
    f.remove p x = .ok (f.detach x) ∧ (f.detach x).children p = (f.children p).erase x ∧ Keeps p f (f.detach x) := by
  have hline := not_mem_line_of_mem_children hx
  obtain ⟨label, children, hfound, -⟩ := exists_of_mem_children hx
  refine ⟨if_pos hx, ?_, keeps_detach (LiveTrees.mem_of_find? hfound) hline⟩
  rw [(f.nodup_children p).erase_eq_filter, children_eq (find?_detach hfound hline), children_eq hfound,
    LiveTrees.roots_without]

/-! ### Putting a node among the children of another -/

variable {anchor : Option Identity}

theorem find?_move {found : Node × LiveTrees} (hfound : f.trees.find? p = some found) (hline : x ∉ f.line p) :
    (f.move p anchor x).trees.find? p = some (found.1, LiveTrees.place anchor (f.trees.tree x) (found.2.without x)) := by
  rw [move, LiveTrees.find?_change, LiveTrees.find?_without hline, hfound, Option.map_some, Option.map_some]

theorem keeps_move (hp : p ∈ f.identities) (hline : x ∉ f.line p) : Keeps p f (f.move p anchor x) := by
  obtain ⟨found, hfound⟩ := LiveTrees.exists_find? hp
  refine ⟨by simp only [LiveForest.label?, find?_move hfound hline, hfound, Option.map_some], ?_, ?_⟩
  · rw [LiveForest.line, move, LiveTrees.line_change, LiveTrees.line_without hline, LiveForest.line]
  · have hleft := (List.nodup_append.1 (LiveTrees.nodup_tree_append_without x f.distinct)).2.1
    exact (LiveTrees.perm_change (LiveTrees.perm_place anchor _) hleft (mem_without hp hline)).trans
      (LiveTrees.perm_without x f.distinct)

theorem mem_of_itemAt? {α : Type} {a : α} {l : List α} (h : itemAt? index l = some a) : a ∈ l := by
  rw [itemAt?] at h
  split at h
  · exact List.mem_of_getElem? h
  · split at h
    · exact List.mem_of_getElem? h
    · cases h

/-- An insertion is refused, or it moves the node; a node that stands at the position already stays there. -/
theorem insert_eq_ok_iff : f.insert p index x = .ok g ↔ f.IsElement p ∧ x ∈ f.identities ∧ x ∉ f.line p ∧
    g = if itemAt? index (f.children p) = some x then f else f.move p (itemAt? index (f.children p)) x := by
  rw [insert]
  by_cases hp : f.IsElement p <;> by_cases hx : x ∈ f.identities <;> by_cases hline : x ∈ f.line p <;>
    by_cases hat : itemAt? index (f.children p) = some x <;> simp [hp, hx, hline, hat, eq_comm]

theorem exists_insert (hp : f.IsElement p) (hx : x ∈ f.identities) (hline : x ∉ f.line p) (index : Int) :
    ∃ g, f.insert p index x = .ok g := ⟨_, insert_eq_ok_iff.2 ⟨hp, hx, hline, rfl⟩⟩

theorem Keeps.of_insert (hg : f.insert p index x = .ok g) : Keeps p f g := by
  obtain ⟨hp, -, hline, rfl⟩ := insert_eq_ok_iff.1 hg
  split
  · exact .refl p f
  · exact keeps_move (mem_identities_of_isElement hp) hline

theorem roots_tree (hx : x ∈ f.identities) : (f.trees.tree x).roots = [x] := by
  obtain ⟨found, hfound⟩ := LiveTrees.exists_find? hx
  rw [LiveTrees.tree, hfound]
  rfl

/-- A node that was no child stands before the child at the position, or behind all if there is none. -/
theorem children_insert (hg : f.insert p index x = .ok g) (hx : x ∉ f.children p) :
    (itemAt? index (f.children p) = none → g.children p = f.children p ++ [x]) ∧
    ∀ front a behind, itemAt? index (f.children p) = some a → f.children p = front ++ a :: behind →
      g.children p = front ++ x :: a :: behind := by
  obtain ⟨hp, hmem, hline, rfl⟩ := insert_eq_ok_iff.1 hg
  rw [if_neg fun hat => hx (mem_of_itemAt? hat)]
  obtain ⟨label, children, hfound⟩ := exists_of_isElement hp
  have hsame : (children.without x).roots = f.children p := by
    rw [LiveTrees.roots_without, ← children_eq hfound]
    exact List.filter_eq_self.2 fun y hy => by simpa using fun heq : y = x => hx (heq ▸ hy)
  refine ⟨fun hat => ?_, fun front a behind hat hsplit => ?_⟩
  · rw [children_eq (find?_move hfound hline), hat, LiveTrees.roots_place_none, hsame, roots_tree hmem]
  · have hfront : a ∉ front := by
      have hnodup := f.nodup_children p
      rw [hsplit] at hnodup
      exact fun hmem => (List.nodup_append.1 hnodup).2.2 a hmem a (by simp) rfl
    rw [children_eq (find?_move hfound hline), hat, LiveTrees.roots_place_some _ (hsame.trans hsplit) hfront, roots_tree hmem]
    rfl

/-! ### What the nodes hold -/

variable {c : Identity}

/-- All identities in the tree of a node. -/
def inside (f : LiveForest) (x : Identity) : List Identity := (f.trees.tree x).identities

theorem not_mem_without_of_inside (hc : c ∈ f.inside x) : c ∉ (f.trees.without x).identities := by
  have hboth := LiveTrees.nodup_tree_append_without x f.distinct
  exact fun hin => (List.nodup_append.1 hboth).2.2 c hc c hin rfl

/-- A node outside `x` does not hold `x`, if it could hold it only by being it. -/
theorem not_mem_inside_of_apart (hx : x ∈ f.inside c → x = c) (hc : c ∉ f.inside x) : x ∉ f.inside c := by
  intro hin
  obtain rfl := hx hin
  exact hc hin

/-- The label of a node and what it holds are the same in two forests. -/
def Alike (c : Identity) (f g : LiveForest) : Prop := g.trees.find? c = f.trees.find? c

theorem Alike.node (hc : Alike c f g) : g.node c = f.node c := by
  rw [LiveForest.node, LiveForest.node, LiveTrees.tree, LiveTrees.tree, hc]

theorem Alike.inside (hc : Alike c f g) : g.inside c = f.inside c := by
  rw [LiveForest.inside, LiveForest.inside, LiveTrees.tree, LiveTrees.tree, hc]

theorem Alike.label? (hc : Alike c f g) : g.label? c = f.label? c := by
  rw [LiveForest.label?, LiveForest.label?, hc]

theorem Alike.children (hc : Alike c f g) : g.children c = f.children c := by
  rw [LiveForest.children, LiveForest.children, hc]

theorem Alike.isElement_iff (hc : Alike c f g) : g.IsElement c ↔ f.IsElement c := by
  rw [IsElement, IsElement, hc.label?]

/-- A node that does not hold the one that is taken out, itself apart, is left as it was. -/
theorem alike_detach (hx : x ∈ f.inside c → x = c) : Alike c f (f.detach x) := by
  rw [Alike, detach, LiveTrees.find?_append]
  by_cases hc : c ∈ f.inside x
  · rw [LiveTrees.find?_eq_none_iff.2 (not_mem_without_of_inside hc), Option.none_or, LiveTrees.find?_tree f.distinct hc]
  · rw [LiveTrees.find?_without_of_apart f.distinct hc (not_mem_inside_of_apart hx hc), LiveTrees.find?_eq_none_iff.2 hc,
      Option.or_none]

theorem alike_move (hp : p ∈ f.identities) (hline : x ∉ f.line p) (hout : p ∉ f.inside c) (hx : x ∈ f.inside c → x = c) :
    Alike c f (f.move p anchor x) := by
  rw [Alike, move]
  by_cases hc : c ∈ f.inside x
  · obtain ⟨found, hfound⟩ := LiveTrees.exists_find? (LiveTrees.mem_of_mem_tree hc)
    rw [hfound]
    refine LiveTrees.find?_change_of_new (fun children hno => ?_) (mem_without hp hline) (not_mem_without_of_inside hc)
    rw [LiveTrees.find?_place_of_new anchor hno, LiveTrees.find?_tree f.distinct hc, hfound]
  · have hleft := LiveTrees.find?_without_of_apart f.distinct hc (not_mem_inside_of_apart hx hc)
    rw [LiveTrees.find?_change_of_apart fun children => LiveTrees.find?_place_of_not_mem anchor hc, hleft]
    rw [LiveTrees.tree, hleft]
    exact hout

/-- A node that holds neither the element nor the one that is put in, itself apart, is left as it was. -/
theorem alike_insert (hg : f.insert p index x = .ok g) (hout : p ∉ f.inside c) (hx : x ∈ f.inside c → x = c) : Alike c f g := by
  obtain ⟨hp, -, hline, rfl⟩ := insert_eq_ok_iff.1 hg
  split
  · rfl
  · exact alike_move (mem_identities_of_isElement hp) hline hout hx

theorem Alike.trans (hfg : Alike c f g) (hgh : Alike c g h) : Alike c f h := Eq.trans hgh hfg

theorem mem_line_iff : x ∈ f.line c ↔ c ∈ f.inside x := LiveTrees.mem_line_iff f.distinct

theorem mem_identities_of_mem_line (hx : x ∈ f.line c) : x ∈ f.identities := by
  refine Decidable.not_not.1 fun hno => ?_
  rw [mem_line_iff, inside, LiveTrees.tree_of_not_mem hno] at hx
  exact List.not_mem_nil hx

/-- The line of a child goes through its parent. -/
theorem line_of_mem_children (hx : x ∈ f.children p) : f.line x = f.line p ++ [x] := by
  obtain ⟨label, children, hfound, hroot⟩ := exists_of_mem_children hx
  exact LiveTrees.line_child f.distinct hfound hroot

/-- A child that stands in a node is that node, or its parent stands there as well. -/
theorem inside_of_mem_children (hx : x ∈ f.children p) (hin : x ∈ f.inside c) : x = c ∨ p ∈ f.inside c := by
  rw [← mem_line_iff, line_of_mem_children hx, List.mem_append, List.mem_singleton] at hin
  rcases hin with hline | rfl
  · exact .inr (mem_line_iff.1 hline)
  · exact .inl rfl

/-- An element stands in none of its children. -/
theorem not_inside_of_mem_children (hc : c ∈ f.children p) : p ∉ f.inside c :=
  fun hin => not_mem_line_of_mem_children hc (mem_line_iff.2 hin)

theorem line_insert (hg : f.insert p index x = .ok g) (hline : x ∉ f.line c) : g.line c = f.line c := by
  obtain ⟨-, -, -, rfl⟩ := insert_eq_ok_iff.1 hg
  split
  · rfl
  · have hout : c ∉ (f.trees.tree x).identities := fun hin => hline (mem_line_iff.2 hin)
    rw [LiveForest.line, move, LiveTrees.line_change_of_apart fun children => LiveTrees.line_place_of_not_mem _ hout,
      LiveTrees.line_without hline, LiveForest.line]

/-! ### Nodes that stand alone -/

/-- The node is the root of a tree. -/
def Alone (f : LiveForest) (x : Identity) : Prop := x ∈ f.trees.roots

theorem Alone.mem (hx : f.Alone x) : x ∈ f.identities := (LiveTrees.roots_sublist f.trees).subset hx

theorem Alone.line (hx : f.Alone x) : f.line x = [x] := LiveTrees.line_root f.distinct hx

/-- A root stands in no node but itself. -/
theorem Alone.eq_of_inside (hx : f.Alone x) (hin : x ∈ f.inside c) : x = c := by
  rw [← mem_line_iff, hx.line, List.mem_singleton] at hin
  exact hin.symm

theorem Alone.not_mem_children (hx : f.Alone x) : x ∉ f.children p := by
  intro hmem
  have hline : f.line p = [] := by
    have heq := (line_of_mem_children hmem).symm.trans hx.line
    exact List.append_left_eq_self.1 heq
  have hout : f.trees.find? p = none := LiveTrees.find?_eq_none_iff.2 (LiveTrees.line_eq_nil_iff.1 hline)
  simp [LiveForest.children, hout] at hmem

theorem Alone.insert (hy : f.Alone c) (hg : f.insert p index x = .ok g) (hne : c ≠ x) : g.Alone c := by
  obtain ⟨-, -, -, rfl⟩ := insert_eq_ok_iff.1 hg
  split
  · exact hy
  · rw [Alone, move, LiveTrees.roots_change, LiveTrees.roots_without]
    exact List.mem_filter.2 ⟨hy, by simpa using hne⟩

theorem alone_detach (hc : f.Alone c ∨ c = x) (hx : x ∈ f.identities) : (f.detach x).Alone c := by
  rw [Alone, detach, LiveTrees.roots_append, roots_tree hx, LiveTrees.roots_without, List.mem_append, List.mem_singleton,
    List.mem_filter]
  by_cases heq : c = x
  · exact .inr heq
  · exact .inl ⟨hc.resolve_right heq, by simpa using heq⟩

/-! ### New trees -/

theorem alike_grow (node : Node) (hc : c ∈ f.identities) : Alike c f (f.grow node) := by
  obtain ⟨found, hfound⟩ := LiveTrees.exists_find? hc
  rw [Alike, grow, LiveTrees.find?_append, hfound, Option.some_or]

theorem mem_grow (node : Node) (hc : c ∈ f.identities) : c ∈ (f.grow node).identities := by
  rw [identities, LiveForest.grow, LiveTrees.identities_append]
  exact List.mem_append_left _ hc

theorem line_grow (node : Node) (hc : c ∈ f.identities) : (f.grow node).line c = f.line c :=
  LiveTrees.line_append_of_mem _ hc

theorem Alone.grow (hc : f.Alone c) (node : Node) : (f.grow node).Alone c := by
  rw [Alone, LiveForest.grow, LiveTrees.roots_append]
  exact List.mem_append_left _ hc

theorem find?_grow_unused (f : LiveForest) (node : Node) :
    (f.grow node).trees.find? f.unused = (LiveTrees.number f.unused [node]).find? f.unused := by
  rw [grow, LiveTrees.find?_append, LiveTrees.find?_eq_none_iff.2 f.unused_not_mem, Option.none_or]

theorem alone_unused (f : LiveForest) (node : Node) : (f.grow node).Alone f.unused := by
  simp [Alone, grow]

/-- A new tree reads as the node that it was made from. -/
theorem node_grow (f : LiveForest) (node : Node) : (f.grow node).node f.unused = node := by
  rw [LiveForest.node, LiveTrees.tree, find?_grow_unused, ← LiveTrees.tree, LiveTrees.tree_number, LiveTrees.nodes_number]
  rfl

end EquationExport.Xml.LiveForest
