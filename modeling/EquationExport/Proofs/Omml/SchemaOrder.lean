import EquationExport.Omml.Edit
import EquationExport.Proofs.Omml.Values

/-!
# Properties in the order of the schema

A group of properties in order stays in order when properties are set, whatever their names and in whatever sequence:
a new property is put behind those that the schema has before it, and a property that is there keeps its place. What is
read afterwards is the last value that a property was given, and any other property has the value it had.
-/

namespace EquationExport.Omml

open Xml Xml.Node

variable {order : List Text} {group name value : Text} {l front rest : List Node}

/-! ### Groups in order -/

/-- Properties that the schema lists, each once and in its order. -/
structure InOrder (order : List Text) (l : List Node) : Prop where
  math : ∀ n ∈ l, n.isMath = true
  names : (labels l).Sublist order

theorem nodup_schemaOrder (group : Text) : (schemaOrder group).Nodup := by
  unfold schemaOrder
  split_ifs <;> decide

/-- Properties in order are distinct. -/
theorem InOrder.nodup (h : InOrder (schemaOrder group) l) : (labels l).Nodup := h.names.nodup (nodup_schemaOrder group)

theorem inOrder_nil (order : List Text) : InOrder order [] := ⟨by simp, List.nil_sublist order⟩

/-- Without the property of a name, the other properties divide at the place of that name in the order. -/
theorem exists_divided {before after : List Text} (h : InOrder (before ++ name :: after) l)
    (hnew : ∀ n ∈ l, n.isNamed name = false) :
    ∃ front rest, l = front ++ rest ∧ (labels front).Sublist before ∧ (labels rest).Sublist after := by
  obtain ⟨a, b, hab, hbefore, hrest⟩ := List.sublist_append_iff.1 h.names
  have hafter : b.Sublist after := by
    rcases List.sublist_cons_iff.1 hrest with hrest | ⟨c, rfl, -⟩
    · exact hrest
    · obtain ⟨n, hn, hlabel⟩ := List.mem_map.1 (show name ∈ labels l by rw [hab]; simp)
      have hother := hnew n hn
      rw [isNamed_eq_label (h.math n hn), hlabel, beq_self_eq_true] at hother
      cases hother
  obtain ⟨front, rest, rfl, rfl, rfl⟩ := List.map_eq_append_iff.1 hab
  exact ⟨front, rest, rfl, hbefore, hafter⟩

/-- Before the place of a name stand those properties that the order has before the name. -/
theorem standsBefore_iff {before after : List Text} (hname : name ∉ before) {n : Node} (hmath : n.isMath = true) :
    standsBefore (before ++ name :: after) name n = true ↔ label n ∈ before := by
  have hlocal : n.localPart? = some (label n) := by
    unfold isMath at hmath
    unfold label localPart?
    cases hn : n.name? with
    | none => simp [hn] at hmath
    | some m => rfl
  have hplace : (before ++ name :: after).idxOf name = before.length := by
    rw [List.idxOf_append_of_notMem hname, List.idxOf_cons_self, Nat.add_zero]
  rw [standsBefore, hlocal, Option.any_some, hplace, Bool.and_eq_true, decide_eq_true_eq, List.contains_iff_mem]
  constructor
  · rintro ⟨-, hlt⟩
    by_contra hnot
    rw [List.idxOf_append_of_notMem hnot] at hlt
    omega
  · intro hmem
    refine ⟨List.mem_append_left _ hmem, ?_⟩
    rw [List.idxOf_append_of_mem hmem]
    exact List.idxOf_lt_length_of_mem hmem

theorem label_mem_of_mem {n : Node} {names : List Text} (hnames : (labels l).Sublist names) (hn : n ∈ l) : label n ∈ names :=
  hnames.subset (List.mem_map_of_mem hn)

/-- A new property is put at its place in the order. -/
theorem insertOrdered_eq {before after : List Text} (horder : (before ++ name :: after).Nodup) (new : Node)
    (hmath : ∀ n ∈ front ++ rest, n.isMath = true) (hfront : (labels front).Sublist before)
    (hrest : (labels rest).Sublist after) :
    insertOrdered (before ++ name :: after) name new (front ++ rest) = front ++ new :: rest := by
  obtain ⟨-, hafter, hapart⟩ := List.nodup_append.1 horder
  have hname : name ∉ before := fun hmem => hapart name hmem name List.mem_cons_self rfl
  -- from the end on, nothing of the back stands before the name, and the last of the front does
  have hback : ∀ n ∈ rest.reverse, (!standsBefore (before ++ name :: after) name n) = true := by
    intro n hn
    rw [List.mem_reverse] at hn
    rw [Bool.not_eq_true', ← Bool.not_eq_true, standsBefore_iff hname (hmath n (List.mem_append_right _ hn))]
    exact fun hmem => hapart _ hmem _ (List.mem_cons_of_mem _ (label_mem_of_mem hrest hn)) rfl
  have hstop : front.reverse.takeWhile (fun n => !standsBefore (before ++ name :: after) name n) = [] := by
    cases hlast : front.reverse with
    | nil => rfl
    | cons n others =>
      have hn : n ∈ front := List.mem_reverse.1 (hlast ▸ List.mem_cons_self)
      have hstands : standsBefore (before ++ name :: after) name n = true :=
        (standsBefore_iff hname (hmath n (List.mem_append_left _ hn))).2 (label_mem_of_mem hfront hn)
      exact List.takeWhile_cons_of_neg (by simp [hstands])
  have hafterwards : ((front ++ rest).reverse.takeWhile fun n => !standsBefore (before ++ name :: after) name n).reverse = rest := by
    rw [List.reverse_append, List.takeWhile_append_of_pos hback, hstop, List.append_nil, List.reverse_reverse]
  rw [insertOrdered, hafterwards, List.length_append, Nat.add_sub_cancel, List.take_left]

/-! ### One property of a group -/

/-- The properties of a group once one of them is there; if it is new it has no value. -/
def ensured (order : List Text) (name : Text) (l : List Node) : List Node :=
  if l.any (·.isNamed name) then l else insertOrdered order name (mathElement name []) l

/-- The properties of a group once one of them has been set. If the value is refused, the property is there all the same. -/
def assigned (order : List Text) (name value : Text) (l : List Node) : List Node :=
  if Xml.isLegal value then modifyFirst (·.isNamed name) (·.setAttribute valueName value) (ensured order name l)
  else ensured order name l

theorem any_isNamed_eq_false : l.any (·.isNamed name) = false ↔ ∀ n ∈ l, n.isNamed name = false := by
  simp

theorem InOrder.ensured (h : InOrder order l) (horder : order.Nodup) (hname : name ∈ order) :
    InOrder order (ensured order name l) := by
  unfold Omml.ensured
  split
  · exact h
  · next hnew =>
    obtain ⟨before, after, rfl⟩ := List.append_of_mem hname
    obtain ⟨front, rest, rfl, hfront, hrest⟩ := exists_divided h (any_isNamed_eq_false.1 (Bool.eq_false_iff.2 hnew))
    rw [insertOrdered_eq horder _ h.math hfront hrest]
    refine ⟨fun n hn => ?_, ?_⟩
    · rcases List.mem_append.1 hn with hn | hn
      · exact h.math n (List.mem_append_left _ hn)
      · rcases List.mem_cons.1 hn with rfl | hn
        · exact isMath_mathElement name []
        · exact h.math n (List.mem_append_right _ hn)
    · rw [labels_append, labels_cons, label_mathElement]
      exact hfront.append (hrest.cons_cons name)

theorem InOrder.assigned (h : InOrder order l) (horder : order.Nodup) (hname : name ∈ order) (value : Text) :
    InOrder order (assigned order name value l) := by
  have hensured := h.ensured horder hname
  unfold Omml.assigned
  split
  · rcases modifyFirst_cases (·.isNamed name) (·.setAttribute valueName value) (Omml.ensured order name l) with
      ⟨heq, -⟩ | ⟨front, n, rest, hl, -, -, heq⟩
    · rwa [heq]
    · rw [heq]
      rw [hl] at hensured
      have hlabel : label (n.setAttribute valueName value) = label n := by simp [label, localPart?]
      have hmath : (n.setAttribute valueName value).isMath = n.isMath := by simp [isMath]
      refine ⟨fun m hm => ?_, ?_⟩
      · rcases List.mem_append.1 hm with hm | hm
        · exact hensured.math m (List.mem_append_left _ hm)
        · rcases List.mem_cons.1 hm with rfl | hm
          · rw [hmath]
            exact hensured.math n (by simp)
          · exact hensured.math m (by simp [hm])
      · have hnames := hensured.names
        rw [labels_append, labels_cons] at hnames ⊢
        rwa [hlabel]
  · exact hensured

/-- The value that a property has in a group. -/
def valueIn (name : Text) (l : List Node) : Option Text := (valuesOf name l).head?.join

/-- A property that is made sure of has the value it had, or none if it is new. -/
theorem valueIn_ensured (order : List Text) (name other : Text) (l : List Node) :
    valueIn other (ensured order name l) = valueIn other l := by
  unfold ensured
  split
  · rfl
  · next hnew =>
    have hlacks := any_isNamed_eq_false.1 (Bool.eq_false_iff.2 hnew)
    obtain ⟨front, rest, rfl, heq⟩ := insertOrdered_cases order name (mathElement name []) l
    rw [heq, valueIn, valueIn]
    have hnamed : (mathElement name []).isNamed other = (name == other) := isNamed_mathElement name other []
    by_cases hother : name = other
    · subst hother
      rw [valuesOf_append, valuesOf_eq_nil fun n hn => hlacks n (List.mem_append_left _ hn), valuesOf_eq_nil hlacks,
        valuesOf_cons_of_isNamed (by rw [hnamed, beq_self_eq_true])]
      rfl
    · simp [valuesOf, hnamed, hother]

/-- There is one property of a name after it has been made sure of. -/
theorem exists_isNamed_ensured (order : List Text) (name : Text) (l : List Node) :
    ∃ n ∈ ensured order name l, n.isNamed name = true := by
  unfold ensured
  split
  · next h => exact List.any_eq_true.1 h
  · obtain ⟨front, rest, -, heq⟩ := insertOrdered_cases order name (mathElement name []) l
    exact ⟨mathElement name [], by simp [heq], isNamed_mathElement_self ..⟩

/-- A property that is set has its value, unless that is refused; the others have the values they had. -/
theorem valueIn_assigned (order : List Text) (name value other : Text) (l : List Node) :
    valueIn other (assigned order name value l) =
      if name = other ∧ Xml.isLegal value = true then some value else valueIn other l := by
  unfold assigned
  by_cases hlegal : Xml.isLegal value = true
  · rw [if_pos hlegal]
    obtain ⟨n, hn, hnamed⟩ := exists_isNamed_ensured order name l
    rcases modifyFirst_cases (·.isNamed name) (·.setAttribute valueName value) (ensured order name l) with
      ⟨-, hnone⟩ | ⟨front, n, rest, hl, hn, hfront, heq⟩
    · rw [hnone n hn] at hnamed
      cases hnamed
    by_cases hother : name = other
    · subst hother
      rw [if_pos ⟨rfl, hlegal⟩, valueIn, head?_valuesOf_of_setIn (.inl ⟨front, n, rest, rfl, hn, hfront, heq⟩)]
      rfl
    · have hnot : n.isNamed other = false := isNamed_of_isNamed hn (by simpa using hother)
      rw [if_neg fun h => hother h.1, ← valueIn_ensured order name other l, heq, hl]
      simp [valueIn, valuesOf, hnot]
  · rw [if_neg hlegal, if_neg fun h => hlegal h.2, valueIn_ensured]

/-! ### Any number of properties of a construct -/

/-- A construct after some of its properties have been set, one after the other. -/
def assignAll (group : Text) (calls : List (Text × Text)) (node : Node) : Node :=
  calls.foldl (fun node call => (assignment group call.1 call.2).1 node) node

/-- The properties of a group after some of them have been set, one after the other. -/
def assignedAll (order : List Text) (calls : List (Text × Text)) (l : List Node) : List Node :=
  calls.foldl (fun l call => assigned order call.1 call.2 l) l

/-- The value that a property was last given; values that are refused do not count. -/
def lastValue? (calls : List (Text × Text)) (name : Text) : Option Text :=
  (calls.reverse.find? fun call => call.1 = name ∧ Xml.isLegal call.2 = true).map (·.2)

theorem lastValue?_cons (call : Text × Text) (calls : List (Text × Text)) (name : Text) :
    lastValue? (call :: calls) name =
      (lastValue? calls name).or (if call.1 = name ∧ Xml.isLegal call.2 = true then some call.2 else none) := by
  rw [lastValue?, List.reverse_cons, List.find?_append, Option.map_or, ← lastValue?, List.find?_singleton]
  split <;> split <;> simp_all

theorem InOrder.assignedAll {calls : List (Text × Text)} (h : InOrder order l) (horder : order.Nodup)
    (hcalls : ∀ call ∈ calls, call.1 ∈ order) : InOrder order (assignedAll order calls l) := by
  induction calls generalizing l with
  | nil => exact h
  | cons call calls ih =>
    exact ih (h.assigned horder (hcalls call List.mem_cons_self) call.2) fun other hother =>
      hcalls other (List.mem_cons_of_mem _ hother)

theorem valueIn_assignedAll (order : List Text) (calls : List (Text × Text)) (name : Text) (l : List Node) :
    valueIn name (assignedAll order calls l) = (lastValue? calls name).or (valueIn name l) := by
  induction calls generalizing l with
  | nil => rfl
  | cons call calls ih =>
    rw [assignedAll, List.foldl_cons, ← assignedAll, ih, valueIn_assigned, lastValue?_cons, Option.or_assoc]
    split <;> rfl

section

variable {g : Node} {calls : List (Text × Text)}

theorem ensureProperty_group (tag : Tag) (text : Option Text) (rest : List Node) (tail : Text)
    (hfront : ∀ n ∈ front, n.isNamed group = false) (hgroup : g.isNamed group = true) (name : Text) :
    (element tag text (front ++ g :: rest) tail).ensureProperty group name =
      element tag text (front ++ g.withChildren (ensured (schemaOrder group) name g.children) :: rest) tail := by
  have hslot : ((element tag text (front ++ g :: rest) tail).slot? group).isSome = true := by
    rw [slot?, List.find?_isSome]
    exact ⟨g, by simp, hgroup⟩
  have hready : (if (g.slot? name).isSome then g
      else g.withChildren (insertOrdered (schemaOrder group) name (mathElement name []) g.children)) =
      g.withChildren (ensured (schemaOrder group) name g.children) := by
    have hsome : (g.slot? name).isSome = g.children.any (·.isNamed name) := by
      rw [slot?, Bool.eq_iff_iff, List.find?_isSome, List.any_eq_true]
    rw [ensured, hsome]
    split
    · exact (withChildren_children g).symm
    · rfl
  rw [ensureProperty, ensureGroup, if_pos hslot]
  simp only [children_element, withChildren_element]
  rw [modifyFirst_append _ front rest hfront hgroup, hready]

/-- Setting a property of a construct with a group sets it in the first group. -/
theorem assignment_group (tag : Tag) (text : Option Text) (rest : List Node) (tail : Text)
    (hfront : ∀ n ∈ front, n.isNamed group = false) (hgroup : g.isNamed group = true) (name value : Text) :
    (assignment group name value).1 (element tag text (front ++ g :: rest) tail) =
      element tag text (front ++ g.withChildren (assigned (schemaOrder group) name value g.children) :: rest) tail := by
  have hensured := ensureProperty_group tag text rest tail hfront hgroup name
  unfold assignment checked Xml.writable assigned Xml.isLegal
  split_ifs
  · have hready : (g.withChildren (ensured (schemaOrder group) name g.children)).isNamed group = true := by
      rw [isNamed_withChildren, hgroup]
    simp only [Except.mapError, setProperty, hensured, children_element, withChildren_element]
    rw [modifyFirst_append _ front rest hfront hready]
    cases g with
    | element => rfl
    | comment | instruction => cases hgroup
  · exact hensured

/-- Setting a property of a construct without a group first adds the group in front. -/
theorem assignment_no_group (tag : Tag) (text : Option Text) (tail : Text) (hnone : ∀ n ∈ l, n.isNamed group = false)
    (name value : Text) :
    (assignment group name value).1 (element tag text l tail) =
      element tag text ((mathElement group []).withChildren (assigned (schemaOrder group) name value []) :: l) tail := by
  have hnamed : (mathElement group []).isNamed group = true := isNamed_mathElement_self ..
  have hadded : (element tag text l tail).ensureProperty group name =
      (element tag text (mathElement group [] :: l) tail).ensureProperty group name := by
    have hslot : (element tag text l tail).slot? group = none := slot?_eq_none_iff.2 hnone
    have hthere : ((element tag text (mathElement group [] :: l) tail).slot? group).isSome = true := by
      rw [slot?, List.find?_isSome]
      exact ⟨mathElement group [], by simp, hnamed⟩
    rw [ensureProperty, ensureProperty, ensureGroup, ensureGroup, if_pos hthere, hslot]
    rfl
  have hsame : (assignment group name value).1 (element tag text l tail) =
      (assignment group name value).1 (element tag text (mathElement group [] :: l) tail) := by
    unfold assignment
    split
    · simp only [setProperty, hadded]
    · exact hadded
  have hfront : ∀ n ∈ ([] : List Node), n.isNamed group = false := by simp
  rw [hsame]
  exact assignment_group tag text l tail hfront hnamed name value

/-- Setting properties of a construct with a group sets them in the first group. -/
theorem assignAll_group (tag : Tag) (text : Option Text) (rest : List Node) (tail : Text)
    (hfront : ∀ n ∈ front, n.isNamed group = false) (hgroup : g.isNamed group = true) :
    assignAll group calls (element tag text (front ++ g :: rest) tail) =
      element tag text (front ++ g.withChildren (assignedAll (schemaOrder group) calls g.children) :: rest) tail := by
  induction calls generalizing g with
  | nil => rw [assignedAll, List.foldl_nil, withChildren_children, assignAll, List.foldl_nil]
  | cons call calls ih =>
    have hset : (g.withChildren (assigned (schemaOrder group) call.1 call.2 g.children)).isNamed group = true := by
      rw [isNamed_withChildren, hgroup]
    rw [assignAll, List.foldl_cons, assignment_group tag text rest tail hfront hgroup, ← assignAll, ih hset]
    cases g with
    | element => rfl
    | comment | instruction => cases hgroup

/-- Setting properties of a construct without a group adds the group in front. -/
theorem assignAll_no_group (tag : Tag) (text : Option Text) (tail : Text) (hnone : ∀ n ∈ l, n.isNamed group = false)
    (hcalls : calls ≠ []) :
    assignAll group calls (element tag text l tail) =
      element tag text ((mathElement group []).withChildren (assignedAll (schemaOrder group) calls []) :: l) tail := by
  obtain ⟨call, calls, rfl⟩ := List.exists_cons_of_ne_nil hcalls
  have hfront : ∀ n ∈ ([] : List Node), n.isNamed group = false := by simp
  have hnamed : ((mathElement group []).withChildren (assigned (schemaOrder group) call.1 call.2 [])).isNamed group = true := by
    rw [isNamed_withChildren, isNamed_mathElement_self]
  rw [assignAll, List.foldl_cons, assignment_no_group tag text tail hnone, ← assignAll]
  exact assignAll_group tag text l tail hfront hnamed

theorem slot?_group (tag : Tag) (text : Option Text) (rest : List Node) (tail : Text)
    (hfront : ∀ n ∈ front, n.isNamed group = false) (hgroup : g.isNamed group = true) :
    (element tag text (front ++ g :: rest) tail).slot? group = some g := by
  rw [slot?, children_element, List.find?_append, List.find?_eq_none.2 fun n hn => by simp [hfront n hn], Option.none_or]
  exact List.find?_cons_of_pos hgroup

/-- The value that is read is the one in the only group. -/
theorem property?_eq_valueIn (tag : Tag) (text : Option Text) (tail : Text)
    (hothers : ∀ n ∈ front ++ rest, n.isNamed group = false) (hgroup : g.isNamed group = true) (name : Text) :
    (element tag text (front ++ g :: rest) tail).property? group name = valueIn name g.children := by
  have hfront := groupValuesOf_eq_nil (fun n hn => hothers n (List.mem_append_left _ hn)) name
  have hrest := groupValuesOf_eq_nil (fun n hn => hothers n (List.mem_append_right _ hn)) name
  rw [property?_eq, children_element, groupValuesOf_append, hfront, groupValuesOf_cons_of_isNamed hgroup, hrest,
    List.nil_append, List.append_nil, valueIn]

/-- In a group whose properties are in order, setting properties keeps the order, and the last value of each is read. -/
theorem inOrder_and_property?_assignedAll (tag : Tag) (text : Option Text) (tail : Text)
    (hothers : ∀ n ∈ front ++ rest, n.isNamed group = false) (hgroup : g.isNamed group = true)
    (horder : InOrder (schemaOrder group) g.children) (hcalls : ∀ call ∈ calls, call.1 ∈ schemaOrder group) {node : Node}
    (hnode : node = element tag text (front ++ g.withChildren (assignedAll (schemaOrder group) calls g.children) :: rest) tail) :
    (∀ g', node.slot? group = some g' → (labels g'.children).Nodup ∧ InOrder (schemaOrder group) g'.children) ∧
    ∀ name, node.property? group name = (lastValue? calls name).or (valueIn name g.children) := by
  subst hnode
  have hfront : ∀ n ∈ front, n.isNamed group = false := fun n hn => hothers n (List.mem_append_left _ hn)
  have hnamed : (g.withChildren (assignedAll (schemaOrder group) calls g.children)).isNamed group = true := by
    rw [isNamed_withChildren, hgroup]
  have hchildren : (g.withChildren (assignedAll (schemaOrder group) calls g.children)).children =
      assignedAll (schemaOrder group) calls g.children := by
    cases g with
    | element => rfl
    | comment | instruction => cases hgroup
  have hin := horder.assignedAll (nodup_schemaOrder group) hcalls
  refine ⟨fun g' hg' => ?_, fun name => ?_⟩
  · obtain rfl := Option.some.inj ((slot?_group tag text rest tail hfront hnamed).symm.trans hg')
    rw [hchildren]
    exact ⟨hin.nodup, hin⟩
  · rw [property?_eq_valueIn tag text tail hothers hnamed, hchildren, valueIn_assignedAll]

/-- The construct has no group of properties of the name, or one, in which the properties are in the order of the schema. -/
def Arranged (group : Text) (l : List Node) : Prop :=
  (∀ n ∈ l, n.isNamed group = false) ∨
    ∃ front g rest, l = front ++ g :: rest ∧ g.isNamed group = true ∧ (∀ n ∈ front ++ rest, n.isNamed group = false) ∧
      InOrder (schemaOrder group) g.children

/--
Properties that the schema orders are set in a construct without a group of properties, or with one that is in order, any
number of them and in any sequence; a value that no document can hold is refused. A group that is added is the first child,
and a group that was there keeps its place. Its properties are distinct and in the order of the schema. Every property has
the value that it was last given, and the value it had if it was given none.
-/
theorem assignAll_inOrder (tag : Tag) (text : Option Text) (tail : Text) (hl : Arranged group l)
    (hcalls : ∀ call ∈ calls, call.1 ∈ schemaOrder group) :
    ((∀ n ∈ l, n.isNamed group = false) → calls ≠ [] → ∃ g, g.isNamed group = true ∧
      assignAll group calls (element tag text l tail) = element tag text (g :: l) tail) ∧
    (∀ front g rest, l = front ++ g :: rest → (∀ n ∈ front, n.isNamed group = false) → g.isNamed group = true →
      ∃ g', g'.isNamed group = true ∧
        assignAll group calls (element tag text l tail) = element tag text (front ++ g' :: rest) tail) ∧
    (∀ g, (assignAll group calls (element tag text l tail)).slot? group = some g →
      (labels g.children).Nodup ∧ InOrder (schemaOrder group) g.children) ∧
    ∀ name, (assignAll group calls (element tag text l tail)).property? group name =
      (lastValue? calls name).or ((element tag text l tail).property? group name) := by
  have habsent : (∀ n ∈ l, n.isNamed group = false) → ∀ front g rest, l = front ++ g :: rest → g.isNamed group ≠ true := by
    rintro hnone front g rest rfl hgroup
    simp [hnone g (by simp)] at hgroup
  rcases hl with hnone | ⟨front, g, rest, rfl, hgroup, hothers, horder⟩
  · refine ⟨fun _ hne => ?_, fun front g rest hl _ hgroup => absurd hgroup (habsent hnone front g rest hl), ?_⟩
    · exact ⟨_, by rw [isNamed_withChildren, isNamed_mathElement_self], assignAll_no_group tag text tail hnone hne⟩
    by_cases hne : calls = []
    · subst hne
      have hslot : (element tag text l tail).slot? group = none := slot?_eq_none_iff.2 hnone
      refine ⟨fun g hg => ?_, fun name => rfl⟩
      cases hslot.symm.trans hg
    · have hothers : ∀ n ∈ [] ++ l, n.isNamed group = false := hnone
      have hgroup : (mathElement group []).isNamed group = true := isNamed_mathElement_self ..
      have hread : ∀ name, (element tag text l tail).property? group name = none := fun name => by
        rw [property?_eq, children_element, groupValuesOf_eq_nil hnone]
        rfl
      simp only [hread]
      exact inOrder_and_property?_assignedAll tag text tail hothers hgroup (inOrder_nil _) hcalls
        (assignAll_no_group tag text tail hnone hne)
  · have hfront : ∀ n ∈ front, n.isNamed group = false := fun n hn => hothers n (List.mem_append_left _ hn)
    refine ⟨fun hnone => absurd hgroup (habsent hnone front g rest rfl), ?_, ?_⟩
    · intro front' g' rest' heq hfront' hgroup'
      rw [heq]
      exact ⟨_, by rw [isNamed_withChildren, hgroup'], assignAll_group tag text rest' tail hfront' hgroup'⟩
    simp only [property?_eq_valueIn tag text tail hothers hgroup]
    exact inOrder_and_property?_assignedAll tag text tail hothers hgroup horder hcalls
      (assignAll_group tag text rest tail hfront hgroup)

/-- A large operator is given properties in a sequence that is not that of the schema, one twice and one to be refused. -/
theorem assignAll_inOrder_shuffled :
    let properties := mathElement "naryPr" [(mathElement "chr" []).setAttribute valueName "∑", mathElement "ctrlPr" []]
    let l := [properties, mathElement "e" []]
    let calls : List (Text × Text) :=
      [("supHide", "1"), ("chr", "∏"), ("limLoc", "undOvr"), ("supHide", "0"), ("chr", [CodePoint.ofNat 0])]
    Arranged "naryPr" l ∧ (∀ call ∈ calls, call.1 ∈ schemaOrder "naryPr") ∧
      ∃ g, assignAll "naryPr" calls (mathElement "nary" l) = mathElement "nary" [g, mathElement "e" []] ∧
        labels g.children = ["chr", "limLoc", "supHide", "ctrlPr"] ∧ InOrder (schemaOrder "naryPr") g.children ∧
        (assignAll "naryPr" calls (mathElement "nary" l)).property? "naryPr" "supHide" = some "0" ∧
        (assignAll "naryPr" calls (mathElement "nary" l)).property? "naryPr" "chr" = some "∏" := by
  intro properties l calls
  have hgroup : properties.isNamed "naryPr" = true := by decide
  have hl : Arranged "naryPr" l :=
    .inr ⟨[], properties, [mathElement "e" []], rfl, hgroup, by decide, by decide, by decide⟩
  have hcalls : ∀ call ∈ calls, call.1 ∈ schemaOrder "naryPr" := by decide
  obtain ⟨-, hthere, hordered, hvalue⟩ := assignAll_inOrder ⟨mathName "nary", [], []⟩ none [] hl hcalls
  obtain ⟨g, hnamed, heq⟩ := hthere [] properties [mathElement "e" []] rfl (by simp) hgroup
  have hslot : (assignAll "naryPr" calls (mathElement "nary" l)).slot? "naryPr" = some g := by
    rw [mathElement, heq]
    exact slot?_group _ none _ [] (by simp) hnamed
  have hlabels : ((assignAll "naryPr" calls (mathElement "nary" l)).slot? "naryPr").map (labels ·.children) =
      some (["chr", "limLoc", "supHide", "ctrlPr"] : List Text) := by decide
  refine ⟨hl, hcalls, g, heq, ?_, (hordered g hslot).2, ?_, ?_⟩
  · rw [hslot] at hlabels
    exact Option.some.inj hlabels
  · exact (hvalue "supHide").trans (by decide)
  · exact (hvalue "chr").trans (by decide)

end

end EquationExport.Omml
