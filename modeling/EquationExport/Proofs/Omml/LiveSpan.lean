import EquationExport.Proofs.Omml.Slice
import EquationExport.Proofs.Omml.Sweeping
import Mathlib.Logic.Relation

/-!
# Collapsing a span in a live tree

A construct is built by filling new elements one after the other. While an element is filled, no node leaves its place but those
that are moved into it, and no other node reads differently. So what is built from the children of a span reads as they did,
and when it is put in their place, the outcome is that of the lists. Every rule that collapses spans of what it reads does the
same in a live tree.
-/

namespace EquationExport

open Xml

namespace Xml.LiveForest

open Omml

variable {f g h : LiveForest} {p x c b : Identity} {span moved moved' : List Identity} {node : Node} {old new : List Node}
  {name : Text} {parts : Parts}

/-! ### New roots -/

/--
What making a new root does: it reads as `node`, and of what was there no node leaves its place but those that are moved into
it.
-/
structure Built (moved : List Identity) (node : Node) (f : LiveForest) (b : Identity) (g : LiveForest) : Prop where
  isNew : b ∉ f.identities
  mem : ∀ c ∈ f.identities, c ∈ g.identities
  root : g.Alone b
  node : g.node b = node
  alone : ∀ c, f.Alone c → c ∉ moved → g.Alone c
  alike : ∀ c ∈ f.identities, (∀ x ∈ moved, x ∈ f.inside c → x = c) → Alike c f g
  line : ∀ c ∈ f.identities, (∀ x ∈ moved, x ∉ f.line c) → g.line c = f.line c

theorem built_grow (f : LiveForest) (node : Node) : Built [] node f f.unused (f.grow node) where
  isNew := f.unused_not_mem
  mem _ hc := mem_grow node hc
  root := alone_unused f node
  node := node_grow f node
  alone _ hc _ := hc.grow node
  alike _ hc _ := alike_grow node hc
  line _ hc _ := line_grow node hc

/-! ### Filling an element -/

/-- What filling an element does: nodes stand behind its children, and no node leaves its place but those that are moved. -/
structure Fills (p : Identity) (moved : List Identity) (new : List Node) (f g : LiveForest) : Prop where
  mem : ∀ c ∈ f.identities, c ∈ g.identities
  label? : g.label? p = f.label? p
  children : (g.node p).children = (f.node p).children ++ new
  alone : ∀ c, f.Alone c → c ∉ moved → g.Alone c
  alike : ∀ c ∈ f.identities, p ∉ f.inside c → (∀ x ∈ moved, x ∈ f.inside c → x = c) → Alike c f g
  line : ∀ c ∈ f.identities, (∀ x ∈ moved, x ∉ f.line c) → g.line c = f.line c

namespace Fills

theorem refl (p : Identity) (f : LiveForest) : Fills p [] [] f f :=
  ⟨fun _ hc => hc, rfl, (List.append_nil _).symm, fun _ hc _ => hc, fun _ _ _ _ => rfl, fun _ _ _ => rfl⟩

theorem isElement_iff (hfg : Fills p moved old f g) : g.IsElement p ↔ f.IsElement p := by
  rw [IsElement, IsElement, hfg.label?]

theorem trans (hfg : Fills p moved old f g) (hgh : Fills p moved' new g h) : Fills p (moved ++ moved') (old ++ new) f h where
  mem c hc := hgh.mem c (hfg.mem c hc)
  label? := hgh.label?.trans hfg.label?
  children := by rw [hgh.children, hfg.children, List.append_assoc]
  alone c hc hout := by
    rw [List.mem_append, not_or] at hout
    exact hgh.alone c (hfg.alone c hc hout.1) hout.2
  alike c hc hp hout := by
    have hfirst := hfg.alike c hc hp fun x hx => hout x (List.mem_append_left _ hx)
    refine hfirst.trans (hgh.alike c (hfg.mem c hc) ?_ fun x hx => ?_) <;> rw [hfirst.inside]
    · exact hp
    · exact hout x (List.mem_append_right _ hx)
  line c hc hout := by
    have hfirst := hfg.line c hc fun x hx => hout x (List.mem_append_left _ hx)
    rw [hgh.line c (hfg.mem c hc) fun x hx => ?_, hfirst]
    rw [hfirst]
    exact hout x (List.mem_append_right _ hx)

/-- A node that was not there before need not be counted among those that were moved. -/
theorem of_new (hfg : Fills p (moved ++ [x]) old f g) (hx : x ∉ f.identities) : Fills p moved old f g where
  mem := hfg.mem
  label? := hfg.label?
  children := hfg.children
  alone c hc hout := hfg.alone c hc fun hin => by
    rcases List.mem_append.1 hin with hin | hin
    · exact hout hin
    · exact hx (List.mem_singleton.1 hin ▸ hc.mem)
  alike c hc hp hout := hfg.alike c hc hp fun y hy hin => by
    rcases List.mem_append.1 hy with hy | hy
    · exact hout y hy hin
    · exact absurd (LiveTrees.mem_of_mem_tree hin) (List.mem_singleton.1 hy ▸ hx)
  line c hc hout := hfg.line c hc fun y hy hin => by
    rcases List.mem_append.1 hy with hy | hy
    · exact hout y hy hin
    · exact hx (List.mem_singleton.1 hy ▸ mem_identities_of_mem_line hin)

/-- A root reads the same after another one was filled. -/
theorem node_of_alone (hfg : Fills p moved new f g) (hp : f.Alone p) (hmoved : ∀ x ∈ moved, f.Alone x) (hc : f.Alone c)
    (hne : c ≠ p) : g.node c = f.node c :=
  (hfg.alike c hc.mem (fun hin => hne (hp.eq_of_inside hin).symm) fun x hx => (hmoved x hx).eq_of_inside).node

end Fills

/-- A root that is put behind the children of another root reads there as it read before. -/
theorem exists_adopt (hp : f.Alone p) (helement : f.IsElement p) (hx : f.Alone x) (hne : x ≠ p) :
    ∃ g, f.adopt p x = .ok g ∧ Fills p [x] [f.node x] f g := by
  have hline : x ∉ f.line p := by simpa [hp.line] using hne
  obtain ⟨g, hg⟩ := exists_insert helement hx.mem hline (f.children p).length
  have hkeeps := Keeps.of_insert hg
  have hapart : ∀ c, p ∉ f.inside c → Alike c f g := fun c hout => alike_insert hg hout hx.eq_of_inside
  have hchildren : g.children p = f.children p ++ [x] := by
    rw [children_insert_eq hg hx.not_mem_children, insertChild_natCast, List.take_length, List.drop_length]
  have hself : g.node x = f.node x := (hapart x fun hin => hne (hp.eq_of_inside hin).symm).node
  have hkept : (f.children p).map g.node = (f.children p).map f.node :=
    List.map_congr_left fun y hy => (hapart y (not_inside_of_mem_children hy)).node
  exact ⟨g, hg, {
    mem := fun c hc => hkeeps.identities.mem_iff.2 hc
    label? := hkeeps.label?
    children := by
      rw [children_node (hkeeps.isElement_iff.2 helement), children_node helement, hchildren, List.map_append, hkept,
        List.map_singleton, hself]
    alone := fun c hc hout => hc.insert hg (by simpa using hout)
    alike := fun c _ hout _ => hapart c hout
    line := fun c _ hout => line_insert hg (hout x (by simp)) }⟩

/-- A new root is put behind the children of another root. -/
theorem Built.exists_adopt (hb : Built moved node f b g) (hp : f.Alone p) (helement : f.IsElement p) (hpout : p ∉ moved)
    (hmoved : ∀ x ∈ moved, f.Alone x) : ∃ h, g.adopt p b = .ok h ∧ Fills p moved [node] f h := by
  have hself : Alike p f g := hb.alike p hp.mem fun x hx => (hmoved x hx).eq_of_inside
  have hfill : Fills p moved [] f g :=
    { mem := hb.mem, label? := hself.label?, children := by rw [hself.node, List.append_nil], alone := hb.alone
      alike := fun c hc _ => hb.alike c hc, line := hb.line }
  have hne : b ≠ p := (ne_of_mem_of_not_mem hp.mem hb.isNew).symm
  obtain ⟨h, hh, hlast⟩ := LiveForest.exists_adopt (hfill.alone p hp hpout) (hfill.isElement_iff.2 helement) hb.root hne
  rw [hb.node] at hlast
  exact ⟨h, hh, (hfill.trans hlast).of_new hb.isNew⟩

/-! ### Filling a new element -/

theorem label?_grow_mathElement (f : LiveForest) (name : Text) :
    (f.grow (mathElement name [])).label? f.unused = some (mathElement name []) := by
  rw [LiveForest.label?, find?_grow_unused]
  simp [LiveTrees.number, LiveTrees.numberNode, LiveTrees.find?, mathElement]

theorem isElement_unused (f : LiveForest) (name : Text) : (f.grow (mathElement name [])).IsElement f.unused := by
  rw [IsElement, label?_grow_mathElement]
  rfl

/-- A new element that is filled is a new root, which reads as its name and what it was filled with. -/
theorem Fills.built (hfill : Fills f.unused moved new (f.grow (mathElement name [])) g) (hmoved : ∀ x ∈ moved, f.Alone x) :
    Built moved (mathElement name new) f f.unused g := by
  have hgrow := built_grow f (mathElement name [])
  have hlabel : g.label? f.unused = some (mathElement name []) := hfill.label?.trans (label?_grow_mathElement f name)
  have hchildren := hfill.children
  rw [hgrow.node, children_node (hfill.isElement_iff.2 (isElement_unused f name))] at hchildren
  exact {
    isNew := hgrow.isNew
    mem := fun c hc => hfill.mem c (hgrow.mem c hc)
    root := hfill.alone _ hgrow.root fun hin => hgrow.isNew (hmoved _ hin).mem
    node := by
      rw [node_eq hlabel, hchildren]
      rfl
    alone := fun c hc hout => hfill.alone c (hgrow.alone c hc List.not_mem_nil) hout
    alike := fun c hc hout => by
      have hfirst : Alike c f (f.grow (mathElement name [])) := alike_grow _ hc
      refine hfirst.trans (hfill.alike c (hgrow.mem c hc) (fun hin => hgrow.isNew ?_) ?_)
      · exact (hgrow.root.eq_of_inside hin).symm ▸ hc
      · rwa [hfirst.inside]
    line := fun c hc hout => by
      have hfirst : (f.grow (mathElement name [])).line c = f.line c := line_grow _ hc
      rw [hfill.line c (hgrow.mem c hc) (by rwa [hfirst]), hfirst] }

/-! ### Parts -/

theorem nodes_congr {read read' : Identity → Node} (h : ∀ x ∈ parts.moves, read x = read' x) :
    parts.nodes read = parts.nodes read' := by
  induction parts with
  | nil => rfl
  | moved x rest ih =>
    rw [Parts.nodes, Parts.nodes, h x (by simp [Parts.moves]), ih fun y hy => h y (List.mem_cons_of_mem x hy)]
  | copied node rest ih => rw [Parts.nodes, Parts.nodes, ih h]
  | made name inner rest ihi ihr =>
    rw [Parts.nodes, Parts.nodes, ihi fun y hy => h y (List.mem_append_left _ hy),
      ihr fun y hy => h y (List.mem_append_right _ hy)]

/-- The parts can be put behind the children of an element: all are roots, and none is asked for twice. -/
structure Ready (f : LiveForest) (p : Identity) (parts : Parts) : Prop where
  isElement : f.IsElement p
  root : f.Alone p
  apart : p ∉ parts.moves
  alone : ∀ x ∈ parts.moves, f.Alone x
  nodup : parts.moves.Nodup

/-- An element that was just made is ready for all roots. -/
theorem ready_unused (name : Text) (halone : ∀ x ∈ parts.moves, f.Alone x) (hnodup : parts.moves.Nodup) :
    Ready (f.grow (mathElement name [])) f.unused parts where
  isElement := isElement_unused f name
  root := alone_unused f _
  apart hin := f.unused_not_mem (halone _ hin).mem
  alone x hx := (halone x hx).grow _
  nodup := hnodup

/-- What was ready to be put in stays so while other nodes are, and reads the same. -/
theorem Ready.of_fills (hready : Ready f p parts) (hfg : Fills p moved new f g) (hp : p ∉ moved)
    (hmoved : ∀ x ∈ moved, f.Alone x) (hout : ∀ x ∈ moved, x ∉ parts.moves) :
    Ready g p parts ∧ parts.nodes g.node = parts.nodes f.node := by
  refine ⟨⟨hfg.isElement_iff.2 hready.isElement, hfg.alone p hready.root hp, hready.apart, fun x hx => ?_, hready.nodup⟩, ?_⟩
  · exact hfg.alone x (hready.alone x hx) fun hin => hout x hin hx
  · exact nodes_congr fun x hx =>
      hfg.node_of_alone hready.root hmoved (hready.alone x hx) (ne_of_mem_of_not_mem hx hready.apart)

/-- Parts that are ready are put in, and read there as what they are made of. -/
theorem Ready.exists_assemble (hready : Ready f p parts) :
    ∃ g, assemble p parts f = .ok g ∧ Fills p parts.moves (parts.nodes f.node) f g := by
  induction parts generalizing f p with
  | nil => exact ⟨f, rfl, .refl p f⟩
  | moved x rest ih =>
    obtain ⟨hx, hnodup⟩ := List.nodup_cons.1 hready.nodup
    obtain ⟨hne, hpout⟩ : p ≠ x ∧ p ∉ rest.moves := by simpa [Parts.moves] using hready.apart
    have hroot := hready.alone x (by simp [Parts.moves])
    have hrest : Ready f p rest :=
      ⟨hready.isElement, hready.root, hpout, fun y hy => hready.alone y (List.mem_cons_of_mem x hy), hnodup⟩
    obtain ⟨g, hg, hfill⟩ := exists_adopt hready.root hready.isElement hroot hne.symm
    obtain ⟨hrest', hread⟩ := hrest.of_fills hfill (by simpa using hne) (by simpa using hroot) (by simpa using hx)
    obtain ⟨h, hh, hfill'⟩ := ih hrest'
    rw [hread] at hfill'
    exact ⟨h, by rw [assemble, hg]; exact hh, hfill.trans hfill'⟩
  | copied node rest ih =>
    have hrest : Ready f p rest := ⟨hready.isElement, hready.root, hready.apart, hready.alone, hready.nodup⟩
    obtain ⟨g, hg, hfill⟩ := (built_grow f node).exists_adopt hready.root hready.isElement List.not_mem_nil (by simp)
    obtain ⟨hrest', hread⟩ := hrest.of_fills hfill List.not_mem_nil (by simp) (by simp)
    obtain ⟨h, hh, hfill'⟩ := ih hrest'
    rw [hread] at hfill'
    exact ⟨h, by rw [assemble, hg]; exact hh, hfill.trans hfill'⟩
  | made name inner rest ihi ihr =>
    obtain ⟨hinner, hnodup, hapart⟩ := List.nodup_append.1 hready.nodup
    obtain ⟨hpin, hpout⟩ : p ∉ inner.moves ∧ p ∉ rest.moves := by simpa [Parts.moves] using hready.apart
    have hroots : ∀ x ∈ inner.moves, f.Alone x := fun x hx => hready.alone x (List.mem_append_left _ hx)
    have hrest : Ready f p rest :=
      ⟨hready.isElement, hready.root, hpout, fun y hy => hready.alone y (List.mem_append_right _ hy), hnodup⟩
    obtain ⟨e, he, hmade⟩ := ihi (ready_unused name hroots hinner)
    have hreadInner : inner.nodes (f.grow (mathElement name [])).node = inner.nodes f.node :=
      nodes_congr fun x hx => (alike_grow _ (hroots x hx).mem).node
    rw [hreadInner] at hmade
    obtain ⟨g, hg, hfill⟩ := (hmade.built hroots).exists_adopt hready.root hready.isElement hpin hroots
    obtain ⟨hrest', hread⟩ := hrest.of_fills hfill hpin hroots fun x hx hin => hapart x hx x hin rfl
    obtain ⟨h, hh, hfill'⟩ := ihr hrest'
    rw [hread] at hfill'
    exact ⟨h, by simp only [assemble, he, hg, bind, Except.bind]; exact hh, hfill.trans hfill'⟩

/-- A construct is built around roots, each of which is asked for once; it reads as they did. -/
theorem exists_construct (name : Text) {parts : List Identity → Parts} (halone : ∀ x ∈ (parts span).moves, f.Alone x)
    (hnodup : (parts span).moves.Nodup) : ∃ b g, construct name parts span f = .ok (b, g) ∧
      Built (parts span).moves (mathElement name ((parts span).nodes f.node)) f b g := by
  obtain ⟨g, hg, hfill⟩ := (ready_unused name halone hnodup).exists_assemble
  have hread : (parts span).nodes (f.grow (mathElement name [])).node = (parts span).nodes f.node :=
    nodes_congr fun x hx => (alike_grow _ (halone x hx).mem).node
  rw [hread] at hfill
  exact ⟨f.unused, g, by rw [construct, hg]; rfl, hfill.built halone⟩

/-! ### Collapsing -/

/-- While roots are built into a new one, an element that holds none of them stays as it is, and does not come to stand in it. -/
theorem Built.apart (hbuilt : Built moved node f b g) (hp : p ∈ f.identities) (hmoved : ∀ x ∈ moved, f.Alone x)
    (hline : ∀ x ∈ moved, x ∉ f.line p) : Alike p f g ∧ b ∉ g.line p := by
  refine ⟨hbuilt.alike p hp fun x hx => (hmoved x hx).eq_of_inside, fun hin => hbuilt.isNew ?_⟩
  rw [hbuilt.line p hp hline] at hin
  exact mem_identities_of_mem_line hin

/-- Children of which one was put in the place of a span read as the span does when it is collapsed. -/
theorem children_node_eq_collapse {start stop : Nat} (hp : f.IsElement p) (hpg : g.IsElement p)
    (hchildren : g.children p = (f.children p).take start ++ b :: (f.children p).drop stop) (hnew : g.node b = node)
    (hkept : ∀ y ∈ (f.children p).take start ++ (f.children p).drop stop, g.node y = f.node y) :
    (g.node p).children = Repair.Span.collapse ⟨start, stop, fun _ => node⟩ (f.node p).children := by
  rw [children_node hpg, hchildren, children_node hp, List.map_append, List.map_cons, hnew,
    List.map_congr_left fun y hy => hkept y (List.mem_append_left _ hy),
    List.map_congr_left fun y hy => hkept y (List.mem_append_right _ hy), List.map_take, List.map_drop]
  rfl

/-- A span is collapsed into the root that is built from it, and the other children read as before. -/
theorem exists_collapse_of_built {build : Build} {start stop : Nat} {h h' : LiveForest} (hp : f.IsElement p)
    (hlt : start < stop) (hle : stop ≤ (f.children p).length)
    (hremove : removeAll p (slice start stop (f.children p)) f = .ok h)
    (hbuild : build (slice start stop (f.children p)) h = .ok (b, h')) (hbuilt : Built moved node h b h')
    (hmoved : ∀ x ∈ moved, x ∈ slice start stop (f.children p)) :
    ∃ g, f.collapse p start stop build = .ok (b, g) ∧ g.IsElement p ∧
      g.children p = (f.children p).take start ++ b :: (f.children p).drop stop ∧
      (g.node p).children = Repair.Span.collapse ⟨start, stop, fun _ => node⟩ (f.node p).children := by
  obtain ⟨h₀, hh₀, hleft, hkeeps⟩ := exists_removeAll_slice f p start stop
  obtain rfl : h₀ = h := Except.ok.inj (hh₀.symm.trans hremove)
  rw [outside_natCast hlt hle] at hleft
  have hroot : ∀ x ∈ moved, h₀.Alone x := fun x hx => alone_removeAll hremove (.inr (hmoved x hx))
  have hline : ∀ x ∈ moved, x ∉ h₀.line p := fun x hx => by
    rw [hkeeps.line]
    exact not_mem_line_of_mem_children (mem_of_mem_slice (hmoved x hx))
  obtain ⟨hself, hout⟩ :=
    hbuilt.apart (hkeeps.identities.mem_iff.2 (mem_identities_of_isElement hp)) hroot hline
  have hp' : h'.IsElement p := hself.isElement_iff.2 (hkeeps.isElement_iff.2 hp)
  obtain ⟨g, hg⟩ := exists_insert hp' hbuilt.root.mem hout start
  have hpg : g.IsElement p := (Keeps.of_insert hg).isElement_iff.2 hp'
  have hchildren : g.children p = (f.children p).take start ++ b :: (f.children p).drop stop := by
    rw [children_insert_eq hg hbuilt.root.not_mem_children, hself.children, hleft, insertChild_take_append_drop hlt hle]
  have hnew : g.node b = node := by
    rw [(alike_insert hg (fun hin => hout (mem_line_iff.2 hin)) hbuilt.root.eq_of_inside).node, hbuilt.node]
  -- a child that stays is left alone by the removals, by the build, and by the insertion
  have hkept : ∀ y ∈ (f.children p).take start ++ (f.children p).drop stop, g.node y = f.node y := fun y hy => by
    have hyf : y ∈ f.children p := mem_of_mem_outside (outside_natCast hlt hle ▸ hy)
    have hyh : y ∈ h₀.children p := hleft ▸ hy
    have hfirst : Alike y f h₀ :=
      alike_removeAll hremove fun x hx hin => eq_of_mem_children_of_inside hyf (mem_of_mem_slice hx) hin
    have hsecond : Alike y h₀ h' := hbuilt.alike y (mem_identities_of_mem_children hyh) fun x hx => (hroot x hx).eq_of_inside
    have hthird : Alike y h' g := alike_insert hg (not_inside_of_mem_children (hself.children ▸ hyh)) hbuilt.root.eq_of_inside
    exact (hfirst.trans (hsecond.trans hthird)).node
  exact ⟨g, (collapse_eq_ok_iff hremove hbuild).2 hg, hpg, hchildren, children_node_eq_collapse hp hpg hchildren hnew hkept⟩

/-- A span is collapsed into a construct around some of its nodes. -/
theorem exists_collapse_construct (name : Text) {parts : List Identity → Parts} {start stop : Nat} (hp : f.IsElement p)
    (hlt : start < stop) (hle : stop ≤ (f.children p).length)
    (hmoves : ∀ x ∈ (parts (slice start stop (f.children p))).moves, x ∈ slice start stop (f.children p))
    (hnodup : (parts (slice start stop (f.children p))).moves.Nodup) :
    ∃ b g, f.collapse p start stop (construct name parts) = .ok (b, g) ∧ b ∉ f.identities ∧ g.IsElement p ∧
      g.children p = (f.children p).take start ++ b :: (f.children p).drop stop ∧
      (g.node p).children = Repair.Span.collapse
        ⟨start, stop, fun _ => mathElement name ((parts (slice start stop (f.children p))).nodes f.node)⟩
        (f.node p).children := by
  obtain ⟨h, hremove, -, hkeeps⟩ := exists_removeAll_slice f p start stop
  obtain ⟨b, h', hbuild, hbuilt⟩ :=
    exists_construct name (fun x hx => alone_removeAll hremove (.inr (hmoves x hx))) hnodup
  obtain ⟨g, hg, hpg, hchildren, hread⟩ := exists_collapse_of_built hp hlt hle hremove hbuild hbuilt hmoves
  refine ⟨b, g, hg, fun hin => hbuilt.isNew (hkeeps.identities.mem_iff.2 hin), hpg, hchildren, ?_⟩
  have hsame : (parts (slice start stop (f.children p))).nodes h.node =
      (parts (slice start stop (f.children p))).nodes f.node :=
    nodes_congr fun x hx => (alike_removeAll hremove fun y hy hin =>
      eq_of_mem_children_of_inside (mem_of_mem_slice (hmoves x hx)) (mem_of_mem_slice hy) hin).node
  rw [hread, hsame]

end Xml.LiveForest

/-! ### Slices -/

namespace Omml

open Xml.LiveForest

/--
Spans of children are assigned as slices are. Nodes that are put in the place of a span, and are not among the children that
stay, may come from anywhere; the children are then the list with the slice assigned, just if no node is asked for twice and
none holds the element, as no list of children can have it otherwise. A span that is collapsed leaves what stands before it,
what is built from it, and what stands behind it, whatever the build does to the children that were taken out, as long as it
leaves the element alone and what it makes can stand there. A construct can, around any of those children.
-/
theorem spans_assign_slices (f : LiveForest) (p : Identity) (hp : f.IsElement p) :
    (∀ (start : Nat) (stop : Int) (new : List Identity),
      (∀ x ∈ new, x ∈ f.identities ∧ x ∉ outside start stop (f.children p)) →
      ((∃ g, f.replaceSpan p start stop new = .ok g ∧ g.children p = assignSlice start stop new (f.children p) ∧
          (g.node p).children = replaceSpan start stop (new.map g.node) ((f.children p).map g.node)) ↔
        new.Nodup ∧ ∀ x ∈ new, x ∉ f.line p)) ∧
    ∀ start stop : Nat, start < stop → stop ≤ (f.children p).length →
      (∃ h, removeAll p (slice start stop (f.children p)) f = .ok h ∧
        h.children p = (f.children p).take start ++ (f.children p).drop stop ∧
        ∀ (build : Build) (b : Identity) (h' : LiveForest), build (slice start stop (f.children p)) h = .ok (b, h') →
          h'.IsElement p → h'.children p = h.children p → b ∈ h'.identities →
          ((∃ g, f.collapse p start stop build = .ok (b, g) ∧
              g.children p = (f.children p).take start ++ b :: (f.children p).drop stop ∧
              (g.node p).children = Repair.Span.collapse ⟨start, stop, fun _ => g.node b⟩ ((f.children p).map g.node)) ↔
            b ∉ h'.children p ∧ b ∉ h'.line p)) ∧
      ∀ (name : Text) (parts : List Identity → Parts),
        (parts (slice start stop (f.children p))).moves.Nodup →
        (∀ x ∈ (parts (slice start stop (f.children p))).moves, x ∈ slice start stop (f.children p)) →
        ∃ b g, f.collapse p start stop (construct name parts) = .ok (b, g) ∧
          g.children p = (f.children p).take start ++ b :: (f.children p).drop stop ∧
          (g.node p).children = Repair.Span.collapse
            ⟨start, stop, fun _ => mathElement name ((parts (slice start stop (f.children p))).nodes f.node)⟩
            (f.node p).children := by
  refine ⟨fun start stop new => replaceSpan_assigns_iff hp, fun start stop hlt hle => ⟨?_, fun name parts hnodup hmoves => ?_⟩⟩
  · obtain ⟨h, hremove, hleft, -⟩ := exists_removeAll_slice f p start stop
    rw [outside_natCast hlt hle] at hleft
    exact ⟨h, hremove, hleft, fun build b h' => collapse_assigns_iff hlt hle hremove⟩
  · obtain ⟨b, g, hg, -, -, hchildren, hread⟩ := exists_collapse_construct name hp hlt hle hmoves hnodup
    exact ⟨b, g, hg, hchildren, hread⟩

/--
A sum of which two terms stand in a box. Its identity is 0; its children are 1, the box 3, and 9, and the slot of the box holds
5 and 7.
-/
def boxedSum : LiveForest := .ofNodes [mathElement "oMath"
  [plainRun "a", mathElement "box" [mathElement "e" [plainRun "+b", plainRun "+c"]], plainRun "+d"]]

theorem spans_assign_slices_boxedSum :
    (∃ g, boxedSum.replaceSpan 0 0 (-1) [5, 7] = .ok g ∧ g.children 0 = [5, 7, 9]) ∧
    (∃ b g, boxedSum.collapse 0 0 2 (construct "d" fun objects => .delimiter "(" ")" (.ofMoved objects)) = .ok (b, g) ∧
      g.children 0 = [b, 9]) ∧
    ∃ b g, boxedSum.collapse 0 1 3 (construct "box" fun objects => .made "e" (.ofMoved objects) .nil) = .ok (b, g) ∧
      (g.node 0).children = [plainRun "a", mathElement "box" [mathElement "e"
        [mathElement "box" [mathElement "e" [plainRun "+b", plainRun "+c"]], plainRun "+d"]]] := by
  obtain ⟨hreplace, hcollapse⟩ := spans_assign_slices boxedSum 0 (by decide)
  refine ⟨?_, ?_, ?_⟩
  · obtain ⟨g, hg, hchildren, -⟩ := (hreplace 0 (-1) [5, 7] (by decide)).2 (by decide)
    exact ⟨g, hg, hchildren.trans (by decide)⟩
  · obtain ⟨⟨h, hremove, hleft, hbuilds⟩, -⟩ := hcollapse 0 2 (by decide) (by decide)
    cases hremove
    obtain ⟨g, hg, hchildren, -⟩ := (hbuilds (construct "d" fun objects => .delimiter "(" ")" (.ofMoved objects)) _ _ rfl
      (by decide) (by decide) (by decide)).2 (by decide)
    exact ⟨_, g, hg, hchildren⟩
  · obtain ⟨-, hconstruct⟩ := hcollapse 1 3 (by decide) (by decide)
    obtain ⟨b, g, hg, -, hread⟩ := hconstruct "box" (fun objects => .made "e" (.ofMoved objects) .nil) (by decide) (by decide)
    exact ⟨b, g, hg, hread.trans rfl⟩

end Omml

/-! ### What the rules build -/

namespace Omml

open Repair

variable {name : Text}

namespace Parts

@[simp] theorem moves_ofMoved (l : List Identity) : (ofMoved l).moves = l := by
  induction l with
  | nil => rfl
  | cons x l ih => rw [ofMoved, moves, ih]

@[simp] theorem nodes_ofMoved (read : Identity → Node) (l : List Identity) : (ofMoved l).nodes read = l.map read := by
  induction l with
  | nil => rfl
  | cons x l ih => rw [ofMoved, nodes, ih, List.map_cons]

@[simp] theorem moves_copies (l : List Node) (parts : Parts) : (copies l parts).moves = parts.moves := by
  induction l with
  | nil => rfl
  | cons node l ih => rw [copies, moves, ih]

@[simp] theorem nodes_copies (read : Identity → Node) (l : List Node) (parts : Parts) :
    (copies l parts).nodes read = l ++ parts.nodes read := by
  induction l with
  | nil => rfl
  | cons node l ih => rw [copies, nodes, ih, List.cons_append]

@[simp] theorem moves_delimiter (opening closing : Text) (content : Parts) :
    (delimiter opening closing content).moves = content.moves := by
  rw [delimiter, moves_copies, moves, moves, List.append_nil]

theorem nodes_delimiter (opening closing : Text) (content : Parts) (read : Identity → Node) :
    mathElement "d" ((delimiter opening closing content).nodes read) = Omml.delimiter opening closing (content.nodes read) := by
  rw [delimiter, nodes_copies, nodes, nodes]
  rfl

/-- The parts make of nodes what `make` makes of what they read as. -/
structure Makes (name : Text) (parts : List Identity → Parts) (make : List Node → Node) : Prop where
  node : ∀ objects read, make (objects.map read) = mathElement name ((parts objects).nodes read)
  moves : ∀ objects, (parts objects).moves.Sublist objects

theorem makes_delimiter (opening closing : Text) {pick : List Node → List Node} {choose : List Identity → List Identity}
    (hpick : ∀ objects read, pick (objects.map read) = (choose objects).map read)
    (hchoose : ∀ objects, (choose objects).Sublist objects) :
    Makes "d" (fun objects => delimiter opening closing (ofMoved (choose objects)))
      fun objects => Omml.delimiter opening closing (pick objects) where
  node objects read := by rw [nodes_delimiter, nodes_ofMoved, hpick]
  moves objects := by simpa using hchoose objects

theorem makes_interior (opening closing : Text) :
    Makes "d" (fun objects => delimiter opening closing (ofMoved (objects.drop 1).dropLast))
      fun objects => Omml.delimiter opening closing (Repair.interior objects) :=
  makes_delimiter opening closing (fun objects read => by rw [Repair.interior, List.map_dropLast, List.map_drop])
    fun objects => (List.dropLast_sublist _).trans (List.drop_sublist ..)

theorem makes_bracketedFraction (opening closing : Text) :
    Makes "d" (fun objects => delimiter opening closing (fraction ((objects.drop 1).take 2) (objects.drop 3).dropLast))
      (bracketedFraction opening closing) where
  node objects read := by
    rw [nodes_delimiter, bracketedFraction]
    simp [fraction, nodes, Omml.fraction]
  moves objects := by
    have hrest : ((objects.drop 1).take 2 ++ (objects.drop 1).drop 2).Sublist objects := by
      rw [List.take_append_drop]
      exact List.drop_sublist ..
    rw [List.drop_drop] at hrest
    simpa [fraction, moves] using ((List.dropLast_sublist _).append_left _).trans hrest

theorem makes_copies (l : List Node) : Makes name (fun _ => copies l nil) fun _ => mathElement name l where
  node objects read := by rw [nodes_copies, nodes, List.append_nil]
  moves objects := by
    rw [moves_copies]
    exact List.nil_sublist objects

end Parts

/-- The objects of a span, of which some are moved into the element that is built. -/
def IsMade : Shape := fun old build => old ≠ [] ∧ ∃ name parts, Parts.Makes name parts build

theorem exists_setProperty (name group key value : Text) (l : List Node) :
    ∃ l', (mathElement name l).setProperty group key value = mathElement name l' := by
  rw [Node.setProperty, Node.ensureProperty, Node.ensureGroup]
  split <;> exact ⟨_, rfl⟩

theorem exists_setPropertyIf (condition : Bool) (name group key value : Text) (l : List Node) :
    ∃ l', setPropertyIf condition group key value (mathElement name l) = mathElement name l' := by
  cases condition with
  | false => exact ⟨l, rfl⟩
  | true => exact exists_setProperty name group key value l

theorem exists_nary (operator : Text) (sub sup base : List Node) (location : Option Text) :
    ∃ l, nary operator sub sup base location = mathElement "nary" l := by
  obtain ⟨signed, hsigned⟩ := exists_setProperty "nary" "naryPr" "chr" operator
    [mathElement "sub" sub, mathElement "sup" sup, mathElement "e" base]
  obtain ⟨located, hlocated⟩ := exists_setPropertyIf (!(location.getD []).isEmpty) "nary" "naryPr" "limLoc"
    (location.getD []) signed
  obtain ⟨lower, hlower⟩ := exists_setPropertyIf sub.isEmpty "nary" "naryPr" "subHide" "1" located
  obtain ⟨upper, hupper⟩ := exists_setPropertyIf sup.isEmpty "nary" "naryPr" "supHide" "1" lower
  exact ⟨upper, by rw [nary, hsigned, hlocated, hlower, hupper]⟩

theorem isMade_of_isIntegral {old : List Node} {build : List Node → Node} (h : IsIntegral old build) : IsMade old build := by
  obtain ⟨sign, lower, upper, rfl, -, -, -, rfl⟩ := h
  obtain ⟨l, hl⟩ := exists_nary sign.glyphs (lower.map limitOf) (upper.map limitOf) [] (some underOver)
  rw [hl]
  exact ⟨List.cons_ne_nil _ _, _, _, Parts.makes_copies l⟩

theorem isMade_of_isBracketed {old : List Node} {build : List Node → Node} (h : IsBracketed old build) : IsMade old build := by
  obtain ⟨opening, inner, last, rfl, -, -, rfl⟩ := h
  exact ⟨List.cons_ne_nil _ _, _, _, Parts.makes_interior "[" "]"⟩

theorem isMade_of_isBraced {old : List Node} {build : List Node → Node} (h : IsBraced old build) : IsMade old build := by
  obtain ⟨brace, matrix, last, rfl, -, -, rfl⟩ | ⟨brace, matrix, rfl, -, rfl⟩ := h
  · exact ⟨List.cons_ne_nil _ _, _, _, Parts.makes_interior "\x7b" "\x7d"⟩
  · exact ⟨List.cons_ne_nil _ _, _, _, Parts.makes_delimiter "\x7b" "" (fun objects read => List.map_drop.symm)
      fun objects => List.drop_sublist 1 objects⟩

theorem isMade_of_isFlattened {old : List Node} {build : List Node → Node} (h : IsFlattened old build) : IsMade old build := by
  obtain ⟨opening, integral, text, plus, sum, last, close, rfl, -, rfl⟩ := h
  exact ⟨List.cons_ne_nil _ _, _, _, Parts.makes_bracketedFraction opening.glyphs close⟩

theorem isMade_of_isPromoted {old : List Node} {build : List Node → Node} (h : IsPromoted old build) : IsMade old build := by
  obtain ⟨opening, tall, last, close, rfl, -, -, rfl⟩ := h
  exact ⟨List.cons_ne_nil _ _, _, _, Parts.makes_interior opening.glyphs close⟩

/-- The rules that collapse spans. -/
def spanRules : List SpanRule := [integralSpan 0, bracketSpan 0, braceSpan 0, fractionSpan 0, promotionSpan 0]

/-- What a rule builds from a span holds nothing of the span but what it moves. -/
theorem covers_isMade {rule : SpanRule} (hrule : rule ∈ spanRules) {seen : List Node} {span : Span}
    (h : rule seen = some span) : span.Covers 0 seen IsMade := by
  simp only [spanRules, List.mem_cons, List.not_mem_nil, or_false] at hrule
  rcases hrule with rfl | rfl | rfl | rfl | rfl
  · exact (covers_of_integralSpan h).mono fun _ _ => isMade_of_isIntegral
  · exact (covers_of_bracketSpan h).mono fun _ _ => isMade_of_isBracketed
  · exact (covers_of_braceSpan h).mono fun _ _ => isMade_of_isBraced
  · exact (covers_of_fractionSpan h).mono fun _ _ => isMade_of_isFlattened
  · exact (covers_of_promotionSpan h).mono fun _ _ => isMade_of_isPromoted

end Omml

/-! ### Rules in a live tree -/

namespace Xml.LiveForest

open Omml Repair

variable {f g : LiveForest} {p : Identity} {rule : SpanRule}

/-- A span is collapsed into what its parts make as it is in a list of nodes. -/
theorem exists_collapse_of_makes {name : Text} {parts : List Identity → Parts} {make : List Node → Node} {start stop : Nat}
    (hmakes : Parts.Makes name parts make) (hp : f.IsElement p) (hlt : start < stop) (hle : stop ≤ (f.children p).length) :
    ∃ b g, f.collapse p start stop (construct name parts) = .ok (b, g) ∧ g.IsElement p ∧
      (g.node p).children = Span.collapse ⟨start, stop, make⟩ (f.node p).children := by
  have hsub := hmakes.moves (slice start stop (f.children p))
  have hnodup : (slice start stop (f.children p)).Nodup :=
    (f.nodup_children p).sublist ((List.drop_sublist ..).trans (List.take_sublist ..))
  obtain ⟨b, g, hg, -, hpg, -, hread⟩ :=
    exists_collapse_construct name hp hlt hle (fun x hx => hsub.subset hx) (hnodup.sublist hsub)
  refine ⟨b, g, hg, hpg, ?_⟩
  have hslice : slice start stop (f.children p) = ((f.children p).drop start).take (stop - start) := by
    rw [slice, position_natCast, position_natCast, Nat.min_eq_right hle, Nat.min_eq_right (by omega), List.drop_take]
  rw [hread, ← hmakes.node, hslice, children_node hp]
  simp only [Span.collapse, List.map_take, List.map_drop]

/-- Delimiters around all children but the first and the last take the place of all, as they do in the base of scripts. -/
theorem exists_collapse_interior (opening closing : Text) (hp : f.IsElement p) (hne : f.children p ≠ []) :
    ∃ b g, f.collapse p (0 : Nat) (f.children p).length
        (construct "d" fun objects => .delimiter opening closing (.ofMoved (objects.drop 1).dropLast)) = .ok (b, g) ∧
      (g.node p).children = [Omml.delimiter opening closing (Repair.interior (f.node p).children)] := by
  obtain ⟨b, g, hg, -, hread⟩ :=
    exists_collapse_of_makes (Parts.makes_interior opening closing) hp (List.length_pos_iff.2 hne) (Nat.le_refl _)
  have hlength : (f.children p).length = (f.node p).children.length := by rw [children_node hp, List.length_map]
  refine ⟨b, g, hg, ?_⟩
  rw [hread, Span.collapse, hlength]
  simp

/-- The span that a rule finds in what the children read as has given way to what the rule makes of the children. -/
def Collapses (rule : SpanRule) (p : Identity) (f g : LiveForest) : Prop :=
  ∃ span name parts b, rule (f.node p).children = some span ∧ Parts.Makes name parts span.build ∧
    f.collapse p span.start span.stop (construct name parts) = .ok (b, g)

/-- A span that a rule finds can be collapsed, and the children read then as the rule has it. -/
theorem exists_collapses (hrule : rule ∈ spanRules) (hp : f.IsElement p) {span : Span}
    (hspan : rule (f.node p).children = some span) :
    ∃ g, Collapses rule p f g ∧ g.IsElement p ∧ (g.node p).children = span.collapse (f.node p).children := by
  obtain ⟨front, old, rest, hseen, hstart, hstop, hold, name, parts, hmakes⟩ := covers_isMade hrule hspan
  have hlength : (f.children p).length = (front ++ (old ++ rest)).length := by
    rw [← hseen, children_node hp, List.length_map]
  have hpos := List.length_pos_iff.2 hold
  simp only [List.length_append] at hlength
  have hlt : span.start < span.stop := by omega
  have hle : span.stop ≤ (f.children p).length := by omega
  obtain ⟨b, g, hg, hpg, hread⟩ := exists_collapse_of_makes hmakes hp hlt hle
  exact ⟨g, ⟨span, name, parts, b, hspan, hmakes, hg⟩, hpg, hread⟩

/-- A container that is repaired in a live tree, one span after the other, reads as one that is repaired as a list of nodes. -/
theorem exists_exhaust (hrule : rule ∈ spanRules) (fuel : Nat) (hp : f.IsElement p) :
    ∃ g, Relation.ReflTransGen (Collapses rule p) f g ∧ g.IsElement p ∧
      (g.node p).children = (exhaust rule fuel (f.node p).children (f.node p).children).1 := by
  induction fuel generalizing f with
  | zero => exact ⟨f, .refl, hp, rfl⟩
  | succ fuel ih =>
    cases hspan : rule (f.node p).children with
    | none => exact ⟨f, .refl, hp, by rw [exhaust, hspan]⟩
    | some span =>
      obtain ⟨h, hstep, hph, hread⟩ := exists_collapses hrule hp hspan
      obtain ⟨g, hsteps, hpg, hread'⟩ := ih hph
      refine ⟨g, .head hstep hsteps, hpg, ?_⟩
      rw [hread', hread, exhaust, hspan]

end Xml.LiveForest

end EquationExport
