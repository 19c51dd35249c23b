import EquationExport.Xml.Live

/-!
# Trees of nodes with an identity

What taking a node out of trees, and changing the children of a node, does to the places of the other nodes. A node is found by
its identity, and its line leads to it from the root of its tree. As no identity is there twice, a node is found in one place
only, and a change leaves alone what neither holds the changed node nor stands in a moved one.
-/

namespace EquationExport.Xml.LiveTrees

variable {trees new : LiveTrees} {x p c : Identity} {label : Node} {children : LiveTrees}

/-! ### Finding a node -/

/-- A node is the first root, or it stands below that, or behind. -/
theorem find?_cons {id : Identity} {rest : LiveTrees} :
    (cons id label children rest).find? x =
      if id = x then some (label, children) else if x ∈ children.identities then children.find? x else rest.find? x := by
  rw [find?]
  split
  · rfl
  · split
    · next hmem =>
      obtain ⟨found, hfound⟩ := exists_find? hmem
      rw [hfound, Option.some_or]
    · next hmem => rw [find?_eq_none_iff.2 hmem, Option.none_or]

theorem find?_cons_below {id : Identity} {rest : LiveTrees} (hd : (cons id label children rest).identities.Nodup)
    (hx : x ∈ children.identities) : (cons id label children rest).find? x = children.find? x := by
  rw [find?_cons, if_neg (ne_of_mem_of_not_mem hx (nodup_cons_iff.1 hd).1.1).symm, if_pos hx]

theorem find?_cons_behind {id : Identity} {rest : LiveTrees} (hd : (cons id label children rest).identities.Nodup)
    (hx : x ∈ rest.identities) : (cons id label children rest).find? x = rest.find? x := by
  obtain ⟨hid, -, -, hapart⟩ := nodup_cons_iff.1 hd
  rw [find?_cons, if_neg (ne_of_mem_of_not_mem hx hid.2).symm, if_neg fun hin => hapart x hin hx]

theorem mem_of_find? {found : Node × LiveTrees} (h : trees.find? x = some found) : x ∈ trees.identities :=
  Decidable.not_not.1 fun hno => by simp [find?_eq_none_iff.2 hno] at h

theorem find?_append (a b : LiveTrees) : (a.append b).find? x = (a.find? x).or (b.find? x) := by
  induction a with
  | nil => rfl
  | cons id label children rest _ ih =>
    rw [append, find?, find?, ih]
    split
    · rfl
    · rw [Option.or_assoc]

theorem roots_sublist (trees : LiveTrees) : trees.roots.Sublist trees.identities := by
  induction trees with
  | nil => exact .slnil
  | cons id label children rest _ ih =>
    exact (ih.trans (List.sublist_append_right children.identities rest.identities)).cons_cons id

@[simp] theorem roots_append (a b : LiveTrees) : (a.append b).roots = a.roots ++ b.roots := by
  induction a with
  | nil => rfl
  | cons id label children rest _ ih => simp [append, roots, ih]

/-- What stands in a node of a forest stands in the forest. -/
theorem sublist_of_find? (h : trees.find? x = some (label, children)) :
    children.identities.Sublist trees.identities := by
  induction trees with
  | nil => cases h
  | cons id label' children' rest ihc ihr =>
    have hc : children'.identities.Sublist (id :: (children'.identities ++ rest.identities)) :=
      (List.sublist_append_left ..).cons id
    have hr : rest.identities.Sublist (id :: (children'.identities ++ rest.identities)) :=
      (List.sublist_append_right ..).cons id
    rw [find?_cons] at h
    split at h
    · cases h
      exact hc
    · split at h
      · exact (ihc h).trans hc
      · exact (ihr h).trans hr

/-- What stands below a node of a forest is found there. -/
theorem find?_below (hd : trees.identities.Nodup) (h : trees.find? p = some (label, children)) (hx : x ∈ children.identities) :
    trees.find? x = children.find? x := by
  induction trees with
  | nil => cases h
  | cons id label' children' rest ihc ihr =>
    obtain ⟨-, hc, hr, -⟩ := nodup_cons_iff.1 hd
    rw [find?_cons] at h
    split at h
    · cases h
      exact find?_cons_below hd hx
    · split at h
      · rw [find?_cons_below hd ((sublist_of_find? h).subset hx), ihc hc h]
      · rw [find?_cons_behind hd ((sublist_of_find? h).subset hx), ihr hr h]

theorem tree_below (hd : trees.identities.Nodup) (h : trees.find? p = some (label, children)) (hx : x ∈ children.identities) :
    trees.tree x = children.tree x := by
  rw [tree, tree, find?_below hd h hx]

/-- Trees read as their roots do, one after the other. -/
theorem nodes_eq_map_roots (hd : trees.identities.Nodup) :
    trees.nodes = trees.roots.map fun x => (trees.tree x).nodes.headD default := by
  induction trees with
  | nil => rfl
  | cons id label children rest _ ih =>
    obtain ⟨-, -, hr, -⟩ := nodup_cons_iff.1 hd
    have hrest : ∀ x ∈ rest.roots, (cons id label children rest).tree x = rest.tree x := fun x hx => by
      rw [tree, tree, find?_cons_behind hd ((roots_sublist rest).subset hx)]
    rw [nodes, roots, List.map_cons, tree_cons_self, ih hr]
    exact congrArg _ (List.map_congr_left fun x hx => by rw [hrest x hx])

/-! ### The line of a node -/

@[simp] theorem line_eq_nil_iff : trees.line x = [] ↔ x ∉ trees.identities := by
  induction trees with
  | nil => simp [line, identities]
  | cons id label children rest ihc ihr =>
    by_cases h : id = x
    · simp [line, identities, h]
    · cases hline : children.line x with
      | nil =>
        have hc : x ∉ children.identities := ihc.1 hline
        simp [line, identities, h, Ne.symm h, hline, hc, ihr]
      | cons a l =>
        have hc : x ∈ children.identities := Decidable.not_not.1 fun hc => by simp [ihc.2 hc] at hline
        simp [line, identities, h, hline, hc]

/-- The line of a node goes through the first root, or the node stands behind. -/
theorem line_cons {id : Identity} {rest : LiveTrees} :
    (cons id label children rest).line x =
      if id = x then [x] else if x ∈ children.identities then id :: children.line x else rest.line x := by
  rw [line]
  split
  · rfl
  · split
    · next hline => rw [if_neg (line_eq_nil_iff.1 hline)]
    · next hline => rw [if_pos (Decidable.not_not.1 fun hc => hline (line_eq_nil_iff.2 hc))]

theorem line_cons_below {id : Identity} {rest : LiveTrees} (hd : (cons id label children rest).identities.Nodup)
    (hx : x ∈ children.identities) : (cons id label children rest).line x = id :: children.line x := by
  rw [line_cons, if_neg (ne_of_mem_of_not_mem hx (nodup_cons_iff.1 hd).1.1).symm, if_pos hx]

theorem line_cons_behind {id : Identity} {rest : LiveTrees} (hd : (cons id label children rest).identities.Nodup)
    (hx : x ∈ rest.identities) : (cons id label children rest).line x = rest.line x := by
  obtain ⟨hid, -, -, hapart⟩ := nodup_cons_iff.1 hd
  rw [line_cons, if_neg (ne_of_mem_of_not_mem hx hid.2).symm, if_neg fun hin => hapart x hin hx]

theorem line_append_of_mem {a : LiveTrees} (b : LiveTrees) (h : x ∈ a.identities) : (a.append b).line x = a.line x := by
  induction a with
  | nil => cases h
  | cons id label children rest _ ih =>
    rw [append, line_cons, line_cons]
    split
    · rfl
    · next hne =>
      split
      · rfl
      · next hmem => exact ih (by simpa [identities, Ne.symm hne, hmem] using h)

/-- What stands below a node is not on its line. -/
theorem not_mem_line_of_find? (hd : trees.identities.Nodup) (h : trees.find? p = some (label, children))
    (hx : x ∈ children.identities) : x ∉ trees.line p := by
  induction trees with
  | nil => cases h
  | cons id label' children' rest ihc ihr =>
    obtain ⟨hid, hc, hr, -⟩ := nodup_cons_iff.1 hd
    rw [find?_cons] at h
    split at h
    · next heq =>
      cases h
      rw [line_cons, if_pos heq, List.mem_singleton]
      rintro rfl
      exact hid.1 (heq ▸ hx)
    · split at h
      · rw [line_cons_below hd (mem_of_find? h), List.mem_cons, not_or]
        exact ⟨ne_of_mem_of_not_mem ((sublist_of_find? h).subset hx) hid.1, ihc hc h⟩
      · rw [line_cons_behind hd (mem_of_find? h)]
        exact ihr hr h

/-! ### Taking a node out -/

@[simp] theorem roots_without (trees : LiveTrees) (x : Identity) : (trees.without x).roots = trees.roots.filter (· != x) := by
  induction trees with
  | nil => rfl
  | cons id label children rest _ ih =>
    by_cases h : id = x
    · simp [without, roots, h, ih]
    · simp [without, roots, h, ih]

theorem line_without (h : x ∉ trees.line p) : (trees.without x).line p = trees.line p := by
  induction trees with
  | nil => rfl
  | cons id label children rest ihc ihr =>
    rw [line_cons] at h ⊢
    by_cases hp : id = p
    · rw [if_pos hp, List.mem_singleton] at h
      rw [without, if_neg (hp ▸ Ne.symm h), line_cons, if_pos hp, if_pos hp]
    rw [if_neg hp] at h ⊢
    by_cases hmem : p ∈ children.identities
    · rw [if_pos hmem, List.mem_cons, not_or] at h
      have hstill : p ∈ (children.without x).identities :=
        Decidable.not_not.1 fun hno => by rw [← line_eq_nil_iff, ihc h.2, line_eq_nil_iff] at hno; exact hno hmem
      rw [without, if_neg (Ne.symm h.1), line_cons, if_neg hp, if_pos hstill, if_pos hmem, ihc h.2]
    · rw [if_neg hmem] at h ⊢
      have hnone : children.line p = [] := line_eq_nil_iff.2 hmem
      have hgone : p ∉ (children.without x).identities := by
        rw [← line_eq_nil_iff, ihc (by simp [hnone]), hnone]
      rw [without]
      split
      · exact ihr h
      · rw [line_cons, if_neg hp, if_neg hgone, ihr h]

/-- A node that is not on the line of another leaves it there, though perhaps without some of what it held. -/
theorem find?_without (h : x ∉ trees.line p) :
    (trees.without x).find? p = (trees.find? p).map fun found => (found.1, found.2.without x) := by
  induction trees with
  | nil => rfl
  | cons id label children rest ihc ihr =>
    rw [line_cons] at h
    rw [find?_cons]
    by_cases hp : id = p
    · rw [if_pos hp, List.mem_singleton] at h
      rw [without, if_neg (hp ▸ Ne.symm h), find?_cons, if_pos hp, if_pos hp, Option.map_some]
    rw [if_neg hp] at h ⊢
    by_cases hmem : p ∈ children.identities
    · rw [if_pos hmem, List.mem_cons, not_or] at h
      obtain ⟨found, hfound⟩ := exists_find? hmem
      rw [without, if_neg (Ne.symm h.1), find?, if_neg hp, if_pos hmem, ihc h.2, hfound, Option.map_some, Option.some_or]
    · rw [if_neg hmem] at h ⊢
      have hnone : children.find? p = none := find?_eq_none_iff.2 hmem
      have hline : children.line p = [] := line_eq_nil_iff.2 hmem
      rw [without]
      split
      · exact ihr h
      · rw [find?, if_neg hp, ihc (by simp [hline]), hnone, ihr h, Option.map_none, Option.none_or]

/-! ### Changing the children of a node -/

theorem line_change (trees : LiveTrees) (p : Identity) (f : LiveTrees → LiveTrees) :
    (trees.change p f).line p = trees.line p := by
  induction trees with
  | nil => rfl
  | cons id label children rest ihc ihr =>
    by_cases h : id = p
    · simp only [change, line, if_pos h]
    · simp only [change, line, if_neg h, ihc, ihr]

theorem find?_change (trees : LiveTrees) (p : Identity) (f : LiveTrees → LiveTrees) :
    (trees.change p f).find? p = (trees.find? p).map fun found => (found.1, f found.2) := by
  induction trees with
  | nil => rfl
  | cons id label children rest ihc ihr =>
    by_cases h : id = p
    · simp only [change, find?, if_pos h, Option.map_some]
    · simp only [change, find?, if_neg h, ihc, ihr, Option.map_or]

theorem roots_place_none (new trees : LiveTrees) : (place none new trees).roots = trees.roots ++ new.roots := by
  induction trees with
  | nil => rfl
  | cons id label children rest _ ih => simp [place, roots, ih]

theorem roots_place_some {front behind : List Identity} (new : LiveTrees) (h : trees.roots = front ++ x :: behind)
    (hx : x ∉ front) :
    (place (some x) new trees).roots = front ++ (new.roots ++ x :: behind) := by
  induction trees generalizing front with
  | nil => simp [roots] at h
  | cons id label children rest _ ih =>
    cases front with
    | nil =>
      obtain ⟨rfl, rfl⟩ := List.cons.inj h
      simp [place, roots]
    | cons y front =>
      obtain ⟨rfl, hrest⟩ := List.cons.inj h
      have hne : id ≠ x := fun heq => hx (by simp [heq])
      have hfront : x ∉ front := fun hmem => hx (List.mem_cons_of_mem _ hmem)
      simp only [place, Option.some.injEq, if_neg hne, roots, List.cons_append, ih hrest hfront]

theorem line_root (hd : trees.identities.Nodup) (hx : x ∈ trees.roots) : trees.line x = [x] := by
  induction trees with
  | nil => cases hx
  | cons id label children rest _ ih =>
    obtain ⟨-, -, hr, -⟩ := nodup_cons_iff.1 hd
    rcases List.mem_cons.1 hx with rfl | hx
    · rw [line_cons, if_pos rfl]
    · rw [line_cons_behind hd ((roots_sublist rest).subset hx), ih hr hx]

/-- The line of a child is the line of its parent and the child. -/
theorem line_child (hd : trees.identities.Nodup) (h : trees.find? p = some (label, children)) (hx : x ∈ children.roots) :
    trees.line x = trees.line p ++ [x] := by
  induction trees with
  | nil => cases h
  | cons id label' children' rest ihc ihr =>
    obtain ⟨-, hc, hr, -⟩ := nodup_cons_iff.1 hd
    have hbelow := (roots_sublist children).subset hx
    rw [find?_cons] at h
    split at h
    · next heq =>
      cases h
      rw [line_cons_below hd hbelow, line_root hc hx, line_cons, if_pos heq, heq]
      rfl
    · split at h
      · rw [line_cons_below hd ((sublist_of_find? h).subset hbelow), line_cons_below hd (mem_of_find? h), ihc hc h]
        rfl
      · rw [line_cons_behind hd ((sublist_of_find? h).subset hbelow), line_cons_behind hd (mem_of_find? h), ihr hr h]

/-! ### What stands apart from a change -/

theorem tree_eq_cons (h : trees.find? x = some (label, children)) : trees.tree x = cons x label children nil := by
  rw [tree, h]

theorem mem_tree_self (hx : x ∈ trees.identities) : x ∈ (trees.tree x).identities := by
  obtain ⟨found, hfound⟩ := exists_find? hx
  simp [tree_eq_cons hfound, identities]

theorem mem_of_mem_tree (hc : c ∈ (trees.tree x).identities) : c ∈ trees.identities := by
  rw [tree] at hc
  split at hc
  · next label children hfound =>
    rcases List.mem_cons.1 hc with rfl | hc
    · exact mem_of_find? hfound
    · exact (sublist_of_find? hfound).subset (by simpa [identities] using hc)
  · cases hc

/-- A tree below a root with another identity stands in one place only. -/
theorem mem_tree_cons {id : Identity} {rest : LiveTrees} (hd : (cons id label children rest).identities.Nodup) (hne : id ≠ x) :
    c ∈ ((cons id label children rest).tree x).identities ↔
      c ∈ (children.tree x).identities ∨ c ∈ (rest.tree x).identities := by
  obtain ⟨-, -, -, hapart⟩ := nodup_cons_iff.1 hd
  rw [tree_cons_of_ne hne]
  split
  · next hmem => simp [tree_of_not_mem (hapart x hmem), identities]
  · next hmem => simp [tree_of_not_mem hmem, identities]

/-- The nodes on the line of a node are those that it stands in, itself included. -/
theorem mem_line_iff (hd : trees.identities.Nodup) : x ∈ trees.line c ↔ c ∈ (trees.tree x).identities := by
  induction trees with
  | nil => simp [line, tree, find?, identities]
  | cons id label children rest ihc ihr =>
    obtain ⟨hid, hc, hr, hapart⟩ := nodup_cons_iff.1 hd
    rw [line_cons]
    by_cases hx : id = x
    · subst hx
      have hbehind : id ∉ rest.line c := by
        rw [ihr hr, tree_of_not_mem hid.2]
        exact List.not_mem_nil
      rw [tree_cons_self, identities, identities, List.append_nil, List.mem_cons]
      split
      · next heq => simp [heq]
      · next hne =>
        split
        · next hmem => simp [hmem]
        · next hmem => simp [Ne.symm hne, hmem, hbehind]
    · rw [mem_tree_cons hd hx, ← ihc hc, ← ihr hr]
      split
      · next heq =>
        subst heq
        simp [line_eq_nil_iff.2 hid.1, line_eq_nil_iff.2 hid.2, Ne.symm hx]
      · split
        · next hmem => simp [line_eq_nil_iff.2 (hapart c hmem), Ne.symm hx]
        · next hmem => simp [line_eq_nil_iff.2 hmem]

/-- A node that is not taken out, and does not hold what is, is left as it was. -/
theorem find?_without_of_apart (hd : trees.identities.Nodup) (hc : c ∉ (trees.tree x).identities)
    (hx : x ∉ (trees.tree c).identities) : (trees.without x).find? c = trees.find? c := by
  rw [find?_without fun hline => hc ((mem_line_iff hd).1 hline)]
  cases hfound : trees.find? c with
  | none => rfl
  | some found =>
    have hout : x ∉ found.2.identities := fun hin => hx (by simp [tree_eq_cons hfound, identities, hin])
    rw [Option.map_some, without_of_not_mem hout]

/-- In the tree of a node, all that it holds is as it was. -/
theorem find?_tree (hd : trees.identities.Nodup) (hc : c ∈ (trees.tree x).identities) :
    (trees.tree x).find? c = trees.find? c := by
  rw [tree] at hc ⊢
  split at hc
  · next label children hfound =>
    rw [find?_cons]
    split
    · next heq => rw [← heq, hfound]
    · next hne =>
      have hin : c ∈ children.identities := by simpa [identities, Ne.symm hne] using hc
      rw [if_pos hin, find?_below hd hfound hin]
  · cases hc

theorem find?_place_of_not_mem (anchor : Option Identity) (h : c ∉ new.identities) :
    (place anchor new trees).find? c = trees.find? c := by
  induction trees with
  | nil => rw [place, find?_eq_none_iff.2 h, find?]
  | cons id label children rest _ ih =>
    rw [place]
    split
    · rw [find?_append, find?_eq_none_iff.2 h, Option.none_or]
    · rw [find?, find?, ih]

theorem find?_place_of_new (anchor : Option Identity) (h : c ∉ trees.identities) :
    (place anchor new trees).find? c = new.find? c := by
  induction trees with
  | nil => rfl
  | cons id label children rest _ ih =>
    rw [place]
    split
    · rw [find?_append, find?_eq_none_iff.2 h, Option.or_none]
    · simp only [identities, List.mem_cons, List.mem_append, not_or] at h
      rw [find?, if_neg (Ne.symm h.1), find?_eq_none_iff.2 h.2.1, Option.none_or, ih h.2.2]

variable {f : LiveTrees → LiveTrees}

/-- A change of the children of a node is none to what does not hold that node. -/
theorem find?_change_of_apart (hf : ∀ children, (f children).find? c = children.find? c) (hp : p ∉ (trees.tree c).identities) :
    (trees.change p f).find? c = trees.find? c := by
  induction trees with
  | nil => rfl
  | cons id label children rest ihc ihr =>
    rw [change, find?, find?_cons]
    by_cases hid : id = c
    · subst hid
      rw [tree_cons_self] at hp
      simp only [identities, List.mem_cons, List.append_nil, not_or] at hp
      rw [if_pos rfl, if_pos rfl, if_neg (Ne.symm hp.1), change_of_not_mem hp.2]
    · rw [tree_cons_of_ne hid] at hp
      rw [if_neg hid, if_neg hid]
      by_cases hmem : c ∈ children.identities
      · rw [if_pos hmem] at hp ⊢
        have hsame : (if id = p then f children else children.change p f).find? c = children.find? c := by
          split
          · exact hf children
          · exact ihc hp
        obtain ⟨found, hfound⟩ := exists_find? hmem
        rw [hsame, hfound, Option.some_or]
      · rw [if_neg hmem] at hp ⊢
        have hsame : (if id = p then f children else children.change p f).find? c = none := by
          split
          · rw [hf children, find?_eq_none_iff.2 hmem]
          · rw [ihc (by simp [tree_of_not_mem hmem, identities]), find?_eq_none_iff.2 hmem]
        rw [hsame, Option.none_or, ihr hp]

/-- What is put among the children of a node is found there. -/
theorem find?_change_of_new {found : Node × LiveTrees}
    (hf : ∀ children : LiveTrees, c ∉ children.identities → (f children).find? c = some found)
    (hp : p ∈ trees.identities) (hc : c ∉ trees.identities) : (trees.change p f).find? c = some found := by
  induction trees with
  | nil => cases hp
  | cons id label children rest ihc ihr =>
    simp only [identities, List.mem_cons, List.mem_append, not_or] at hc
    rw [change, find?, if_neg (Ne.symm hc.1)]
    by_cases hid : id = p
    · rw [if_pos hid, hf children hc.2.1, Option.some_or]
    · rw [if_neg hid]
      by_cases hmem : p ∈ children.identities
      · rw [ihc hmem hc.2.1, Option.some_or]
      · have hrest : p ∈ rest.identities := by simpa [identities, Ne.symm hid, hmem] using hp
        rw [change_of_not_mem hmem, find?_eq_none_iff.2 hc.2.1, Option.none_or, ihr hrest hc.2.2]

@[simp] theorem roots_change (trees : LiveTrees) (p : Identity) (f : LiveTrees → LiveTrees) :
    (trees.change p f).roots = trees.roots := by
  induction trees with
  | nil => rfl
  | cons id label children rest _ ih => rw [change, roots, roots, ih]

theorem line_change_of_apart (hf : ∀ children, (f children).line c = children.line c) (trees : LiveTrees) (p : Identity) :
    (trees.change p f).line c = trees.line c := by
  induction trees with
  | nil => rfl
  | cons id label children rest ihc ihr =>
    have hsame : (if id = p then f children else children.change p f).line c = children.line c := by
      split
      · exact hf children
      · exact ihc
    simp only [change, line, hsame, ihr]

theorem line_place_of_not_mem (anchor : Option Identity) (h : c ∉ new.identities) :
    (place anchor new trees).line c = trees.line c := by
  have happend : ∀ b : LiveTrees, (new.append b).line c = b.line c := fun b => by
    induction new with
    | nil => rfl
    | cons id label children rest _ ih =>
      simp only [identities, List.mem_cons, List.mem_append, not_or] at h
      rw [append, line_cons, if_neg (Ne.symm h.1), if_neg h.2.1, ih h.2.2]
  induction trees with
  | nil => exact line_eq_nil_iff.2 h
  | cons id label children rest _ ih =>
    rw [place]
    split
    · exact happend _
    · rw [line, line, ih]

/-! ### Numbered trees -/

mutual

theorem nodes_numberNode (next : Identity) (rest : LiveTrees) : ∀ node : Node,
    (numberNode next rest node).nodes = node :: rest.nodes
  | .element tag text children tail => by
    rw [numberNode, nodes, nodes_number]
    rfl
  | .comment content tail => rfl
  | .instruction target content tail => rfl

theorem nodes_number (next : Identity) : ∀ l : List Node, (number next l).nodes = l
  | [] => rfl
  | node :: rest => by rw [number, nodes_numberNode, nodes_number]

end

/-- A numbered tree is the tree of its root. -/
theorem tree_number (next : Identity) (node : Node) : (number next [node]).tree next = number next [node] := by
  cases node <;> simp [number, numberNode, tree, find?]

@[simp] theorem roots_number (next : Identity) (node : Node) : (number next [node]).roots = [next] := by
  cases node <;> rfl

end EquationExport.Xml.LiveTrees
