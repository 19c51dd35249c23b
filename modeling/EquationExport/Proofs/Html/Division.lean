import Mathlib.Data.List.Basic
import EquationExport.Proofs.Document.Finished

/-!
# What is walked of a page

A page is read inside a division, and only what comes to stand in this division is walked. The closing tags of the page
may close it early: one for a division that finds no other division open closes the division around the page, with
everything that is open inside. So what is walked is the tree of the events in front of the first such stray tag, and
nothing behind it is. Everything is walked exactly if behind the tag there are only closing tags.
-/

namespace EquationExport.Html

namespace Builder

variable (b : Builder)

/-! ### Open elements -/

/-- The names of the open elements, the innermost first. -/
def openNames : List Text := b.stack.map (·.name)

theorem length_openNames : b.openNames.length = b.stack.length := List.length_map _

theorem openNames_add (node : Node) : (b.add node).openNames = b.openNames := by
  obtain ⟨stack, done, pending, owed⟩ := b
  cases stack <;> rfl

theorem openNames_flush : b.flush.openNames = b.openNames := by
  rw [flush]
  split
  · rfl
  · rw [openNames_add]
    rfl

theorem pop_cons (e : OpenElement) (outer : List OpenElement) (done : List Node) (pending : Text) (owed : List Text)
    (count : Nat) :
    pop ⟨e :: outer, done, pending, owed⟩ (count + 1) = (add ⟨outer, done, pending, owed⟩ e.close).pop count := rfl

/-! ### A builder inside a division -/

/-- The builder inside a division, with all that it has made in the division. -/
def enclosed : Builder := { b with stack := b.stack ++ [⟨"div", [], b.done⟩], done := [] }

theorem add_enclosed (node : Node) : b.enclosed.add node = (b.add node).enclosed := by
  obtain ⟨stack, done, pending, owed⟩ := b
  cases stack <;> rfl

theorem settle_enclosed (s : Text) : b.enclosed.settle s = b.settle s := by
  have hpreserves : b.enclosed.preserves = b.preserves := by
    have hdivision : decide (Text.ofString "div" ∈ preservingNames) = false := rfl
    rw [preserves, preserves, enclosed, List.any_append, List.any_cons, List.any_nil, hdivision, Bool.or_false, Bool.or_false]
  rw [settle, settle, hpreserves]

theorem kind_enclosed : b.enclosed.kind = b.kind := by
  have hdivision : TextKind.ofName? "div" = none := rfl
  rw [kind, kind, enclosed, List.findSome?_append, List.findSome?_singleton, hdivision, Option.or_none]

theorem flush_enclosed : b.enclosed.flush = b.flush.enclosed := by
  rw [flush, flush, show b.enclosed.pending = b.pending from rfl]
  split
  · rfl
  · rw [kind_enclosed, settle_enclosed, ← add_enclosed]
    rfl

theorem pop_enclosed {count : Nat} (h : count ≤ b.stack.length) : b.enclosed.pop count = (b.pop count).enclosed := by
  induction count generalizing b with
  | zero => rfl
  | succ count ih =>
    obtain ⟨stack, done, pending, owed⟩ := b
    cases stack with
    | nil => exact absurd h (by simp)
    | cons e outer =>
      have hlength : count ≤ (add ⟨outer, done, pending, owed⟩ e.close).stack.length := by
        rw [← length_openNames, openNames_add, length_openNames]
        exact Nat.le_of_succ_le_succ h
      rw [pop_cons, ← ih _ hlength, ← add_enclosed]
      rfl

/-- An element that is open inside the division is closed there, and if there is none of the name nothing is. -/
theorem close_enclosed {name : Text} (h : name = "div" → name ∈ b.openNames) :
    b.enclosed.close name = (b.close name).enclosed := by
  have hdepth : (b.flush.enclosed.stack.findIdx? (·.name == name)) = b.flush.stack.findIdx? (·.name == name) := by
    rw [enclosed, List.findIdx?_append]
    cases hfound : b.flush.stack.findIdx? (·.name == name) with
    | some depth => rfl
    | none =>
      have hne : name ≠ "div" := by
        rintro rfl
        have hmem := h rfl
        rw [← openNames_flush] at hmem
        obtain ⟨e, he, hname⟩ := List.mem_map.1 hmem
        have hother := List.findIdx?_eq_none_iff.1 hfound e he
        simp [hname] at hother
      simp [List.findIdx?_cons, Ne.symm hne]
  simp only [close, flush_enclosed, hdepth]
  split
  · next depth hfound =>
    obtain ⟨hlt, -⟩ := List.findIdx?_eq_some_iff_getElem.1 hfound
    exact pop_enclosed _ hlt
  · rfl

theorem closeTag_enclosed {name : Text} (h : name = "div" → name ∈ b.owed ∨ name ∈ b.openNames) :
    b.enclosed.closeTag name = (b.closeTag name).enclosed := by
  rw [closeTag, closeTag, show b.enclosed.owed = b.owed from rfl]
  split
  · rfl
  · next howed => exact close_enclosed b fun hname => (h hname).resolve_left howed

/-- The event is a closing tag of a division, and neither is it owed nor is a division open. -/
def IsStray : Event → Prop
  | .closing name => name = "div" ∧ name ∉ b.owed ∧ name ∉ b.openNames
  | _ => False

instance (event : Event) : Decidable (b.IsStray event) :=
  match event with
  | .closing name => inferInstanceAs (Decidable (name = "div" ∧ name ∉ b.owed ∧ name ∉ b.openNames))
  | .opening .. => isFalse id
  | .text _ => isFalse id
  | .markup .. => isFalse id

/-- Whatever is no stray tag does the same inside the division as without it. -/
theorem apply_enclosed {event : Event} (h : ¬ b.IsStray event) : b.enclosed.apply event = (b.apply event).enclosed := by
  cases event with
  | text content => rfl
  | markup kind content => simp only [apply, flush_enclosed, settle_enclosed, add_enclosed]
  | closing name =>
    exact closeTag_enclosed b fun hname => Classical.byContradiction fun hnone => h ⟨hname, not_or.1 hnone⟩
  | opening name attributes selfClosed =>
    simp only [apply, flush_enclosed]
    have hpush : ({ b.flush.enclosed with stack := ⟨name, attributes, []⟩ :: b.flush.enclosed.stack } : Builder) =
        enclosed { b.flush with stack := ⟨name, attributes, []⟩ :: b.flush.stack } := rfl
    have hopen : name = "div" → name ∈ openNames { b.flush with stack := ⟨name, attributes, []⟩ :: b.flush.stack } :=
      fun _ => List.mem_cons_self
    rw [hpush]
    split_ifs
    · exact closeTag_enclosed _ fun hname => .inr (hopen hname)
    · rw [close_enclosed _ hopen]
      rfl
    · rfl

/-! ### Closing everything -/

theorem pending_add (node : Node) : (b.add node).pending = b.pending := by
  obtain ⟨stack, done, pending, owed⟩ := b
  cases stack <;> rfl

theorem owed_add (node : Node) : (b.add node).owed = b.owed := by
  obtain ⟨stack, done, pending, owed⟩ := b
  cases stack <;> rfl

theorem pending_flush : b.flush.pending = [] := by
  rw [flush]
  split
  · next h => exact List.isEmpty_iff.1 h
  · exact pending_add _ _

theorem owed_flush : b.flush.owed = b.owed := by
  rw [flush]
  split
  · rfl
  · exact owed_add _ _

theorem flush_of_pending {b : Builder} (h : b.pending = []) : b.flush = b := by
  rw [flush, h]
  rfl

/-- Closing elements changes nothing but what is open and what has been made. -/
theorem pop_keeps (count : Nat) : (b.pop count).openNames = b.openNames.drop count ∧ (b.pop count).pending = b.pending ∧
    (b.pop count).owed = b.owed := by
  induction count generalizing b with
  | zero => exact ⟨rfl, rfl, rfl⟩
  | succ count ih =>
    obtain ⟨stack, done, pending, owed⟩ := b
    cases stack with
    | nil => exact ⟨rfl, rfl, rfl⟩
    | cons e outer =>
      rw [pop_cons, (ih _).1, (ih _).2.1, (ih _).2.2, openNames_add, pending_add, owed_add]
      exact ⟨rfl, rfl, rfl⟩

theorem pop_add (count more : Nat) : b.pop (count + more) = (b.pop count).pop more := by
  induction count generalizing b with
  | zero => rw [Nat.zero_add]; rfl
  | succ count ih =>
    obtain ⟨stack, done, pending, owed⟩ := b
    cases stack with
    | nil =>
      have hnone : ∀ n, pop ⟨[], done, pending, owed⟩ n = ⟨[], done, pending, owed⟩ := fun n => by cases n <;> rfl
      rw [hnone, hnone, hnone]
    | cons e outer => rw [Nat.add_right_comm, pop_cons, pop_cons, ih]

/-- The builder with everything closed. -/
def closed : Builder := b.flush.pop b.flush.stack.length

theorem finish_eq : b.finish = b.closed.done.reverse := rfl

theorem stack_closed : b.closed.stack = [] := by
  have hnames : b.closed.openNames = [] := by
    rw [closed, (pop_keeps _ _).1, ← length_openNames, List.drop_length]
  exact List.map_eq_nil_iff.1 hnames

theorem pending_closed : b.closed.pending = [] := by
  rw [closed, (pop_keeps _ _).2.1, pending_flush]

theorem owed_closed : b.closed.owed = b.owed := by
  rw [closed, (pop_keeps _ _).2.2, owed_flush]

/-- Closing everything around a division leaves the division. -/
theorem closed_enclosed : b.enclosed.closed = ⟨[], [.element "div" [] b.finish], [], b.owed⟩ := by
  have hlast : b.enclosed.closed = b.closed.enclosed.pop 1 := by
    have hlength : b.flush.enclosed.stack.length = b.flush.stack.length + 1 := by simp [enclosed]
    rw [closed, flush_enclosed, hlength, pop_add, pop_enclosed _ (Nat.le_refl _)]
    rfl
  have hparts : b.closed = ⟨[], b.closed.done, [], b.owed⟩ := by
    rw [← stack_closed b, ← pending_closed b, ← owed_closed b]
  rw [hlast, hparts]
  rfl

/-- A stray tag closes the division and everything inside. -/
theorem apply_enclosed_stray {event : Event} (h : b.IsStray event) : b.enclosed.apply event = b.enclosed.closed := by
  cases event with
  | closing name =>
    obtain ⟨rfl, howed, hopen⟩ := h
    have hdepth : b.flush.enclosed.stack.findIdx? (·.name == ("div" : Text)) = some b.flush.stack.length := by
      have hnone : b.flush.stack.findIdx? (·.name == ("div" : Text)) = none := by
        refine List.findIdx?_eq_none_iff.2 fun e he => ?_
        rw [beq_eq_false_iff_ne]
        rintro hname
        refine hopen ?_
        rw [← openNames_flush]
        exact List.mem_map.2 ⟨e, he, hname⟩
      have hstack : b.flush.enclosed.stack = b.flush.stack ++ [⟨"div", [], b.flush.done⟩] := rfl
      rw [hstack, List.findIdx?_append, hnone]
      simp [List.findIdx?_cons]
    have hlength : b.flush.enclosed.stack.length = b.flush.stack.length + 1 := by simp [enclosed]
    have hclose : b.enclosed.close "div" = b.flush.enclosed.pop (b.flush.stack.length + 1) := by
      simp only [close, flush_enclosed, hdepth]
    show b.enclosed.closeTag "div" = _
    rw [closeTag, if_neg (show ¬ Text.ofString "div" ∈ b.enclosed.owed from howed), hclose, closed, flush_enclosed, hlength]
  | opening => exact h.elim
  | text => exact h.elim
  | markup => exact h.elim

/-! ### What has been made before -/

/-- The builder behind nodes that have been made before. -/
def behind (nodes : List Node) : Builder := { b with done := b.done ++ nodes }

variable (nodes : List Node)

theorem add_behind (node : Node) : (b.behind nodes).add node = (b.add node).behind nodes := by
  obtain ⟨stack, done, pending, owed⟩ := b
  cases stack <;> rfl

theorem flush_behind : (b.behind nodes).flush = b.flush.behind nodes := by
  rw [flush, flush, show (b.behind nodes).pending = b.pending from rfl]
  split
  · rfl
  · rw [← add_behind]
    rfl

theorem pop_behind (count : Nat) : (b.behind nodes).pop count = (b.pop count).behind nodes := by
  induction count generalizing b with
  | zero => rfl
  | succ count ih =>
    obtain ⟨stack, done, pending, owed⟩ := b
    cases stack with
    | nil => rfl
    | cons e outer =>
      rw [pop_cons, ← ih, ← add_behind]
      rfl

theorem close_behind (name : Text) : (b.behind nodes).close name = (b.close name).behind nodes := by
  simp only [close, flush_behind, show (b.flush.behind nodes).stack = b.flush.stack from rfl]
  split
  · exact pop_behind _ _ _
  · rfl

theorem closeTag_behind (name : Text) : (b.behind nodes).closeTag name = (b.closeTag name).behind nodes := by
  rw [closeTag, closeTag, show (b.behind nodes).owed = b.owed from rfl]
  split
  · rfl
  · exact close_behind _ _ _

theorem apply_behind (event : Event) : (b.behind nodes).apply event = (b.apply event).behind nodes := by
  cases event with
  | text content => rfl
  | markup kind content =>
    simp only [apply, flush_behind]
    exact add_behind _ _ _
  | closing name => exact closeTag_behind _ _ _
  | opening name attributes selfClosed =>
    simp only [apply, flush_behind]
    have hpush : ({ b.flush.behind nodes with stack := ⟨name, attributes, []⟩ :: (b.flush.behind nodes).stack } : Builder) =
        behind { b.flush with stack := ⟨name, attributes, []⟩ :: b.flush.stack } nodes := rfl
    rw [hpush]
    split_ifs
    · exact closeTag_behind _ _ _
    · rw [close_behind]
      rfl
    · rfl

/-- What has been made before stands in front of all that is made. -/
theorem finish_foldl_behind (events : List Event) :
    (events.foldl apply (b.behind nodes)).finish = nodes.reverse ++ (events.foldl apply b).finish := by
  induction events generalizing b with
  | nil =>
    rw [List.foldl_nil, List.foldl_nil, finish_eq, finish_eq, closed, flush_behind,
      show (b.flush.behind nodes).stack = b.flush.stack from rfl, pop_behind, ← closed]
    exact List.reverse_append
  | cons event events ih =>
    rw [List.foldl_cons, List.foldl_cons, apply_behind, ih]

/-! ### The first stray tag -/

/-- The events in front of the first stray tag, and those behind it. -/
def splitStray (b : Builder) : List Event → List Event × List Event
  | [] => ([], [])
  | event :: rest =>
    if b.IsStray event then ([], rest)
    else
      let (kept, lost) := splitStray (b.apply event) rest
      (event :: kept, lost)

/-- The nodes that are made behind a division that has been closed, given the names of void elements that tags are owed to. -/
def remainder (owed : List Text) (events : List Event) : List Node := (events.foldl apply ⟨[], [], [], owed⟩).finish

/-- What is made inside a division: the division with the tree of the events up to the first stray tag, and what is behind. -/
theorem finish_foldl_enclosed (events : List Event) : (events.foldl apply b.enclosed).finish =
    .element "div" [] ((b.splitStray events).1.foldl apply b).finish ::
      remainder ((b.splitStray events).1.foldl apply b).owed (b.splitStray events).2 := by
  induction events generalizing b with
  | nil =>
    rw [List.foldl_nil, finish_eq, closed_enclosed]
    rfl
  | cons event events ih =>
    rw [List.foldl_cons, splitStray]
    by_cases hstray : b.IsStray event
    · rw [if_pos hstray, apply_enclosed_stray b hstray, closed_enclosed]
      exact finish_foldl_behind ⟨[], [], [], b.owed⟩ [.element "div" [] b.finish] events
    · rw [if_neg hstray, apply_enclosed b hstray, ih]
      rfl

/-! ### Events that make nothing -/

/-- Nothing is open, nothing has been made, and no text has been read. -/
def IsBare : Prop := b.stack = [] ∧ b.done = [] ∧ b.pending = []

theorem not_isBare_add (node : Node) : ¬ (b.add node).IsBare := by
  obtain ⟨stack, done, pending, owed⟩ := b
  cases stack with
  | nil => exact fun h => List.cons_ne_nil _ _ h.2.1
  | cons e outer => exact fun h => List.cons_ne_nil _ _ h.1

theorem isBare_flush : b.flush.IsBare ↔ b.IsBare := by
  rw [flush]
  split
  · rfl
  · next h => exact iff_of_false (not_isBare_add _ _) fun hbare => h (List.isEmpty_iff.2 hbare.2.2)

theorem isBare_pop (count : Nat) : (b.pop count).IsBare ↔ b.IsBare := by
  induction count generalizing b with
  | zero => rfl
  | succ count ih =>
    obtain ⟨stack, done, pending, owed⟩ := b
    cases stack with
    | nil => rfl
    | cons e outer =>
      rw [pop_cons, ih]
      exact iff_of_false (not_isBare_add _ _) fun hbare => List.cons_ne_nil _ _ hbare.1

theorem isBare_close (name : Text) : (b.close name).IsBare ↔ b.IsBare := by
  rw [close, ← isBare_flush b]
  split
  · exact isBare_pop _ _
  · rfl

theorem isBare_closeTag (name : Text) : (b.closeTag name).IsBare ↔ b.IsBare := by
  rw [closeTag]
  split
  · rfl
  · exact isBare_close _ _

theorem finish_eq_nil_iff : b.finish = [] ↔ b.IsBare := by
  rw [finish_eq, List.reverse_eq_nil_iff, ← isBare_flush, ← isBare_pop, ← closed, IsBare, stack_closed, pending_closed]
  simp

end Builder

/-- The event is a closing tag, or text with nothing in it. -/
def Event.isSilent : Event → Bool
  | .closing _ => true
  | .text content => content.isEmpty
  | .opening .. => false
  | .markup .. => false

namespace Builder

variable (b : Builder)

theorem isBare_apply (event : Event) : (b.apply event).IsBare ↔ b.IsBare ∧ event.isSilent = true := by
  cases event with
  | text content =>
    have hpending : (b.apply (.text content)).IsBare ↔ b.stack = [] ∧ b.done = [] ∧ b.pending ++ content = [] := Iff.rfl
    rw [hpending, IsBare, List.append_eq_nil_iff, Event.isSilent, List.isEmpty_iff, and_assoc, and_assoc]
  | markup kind content => exact iff_of_false (not_isBare_add _ _) fun h => nomatch h.2
  | closing name =>
    rw [Event.isSilent, and_iff_left rfl]
    exact isBare_closeTag _ _
  | opening name attributes selfClosed =>
    have hpushed : ¬ IsBare { b.flush with stack := ⟨name, attributes, []⟩ :: b.flush.stack } :=
      fun h => List.cons_ne_nil _ _ h.1
    refine iff_of_false ?_ fun h => nomatch h.2
    rw [apply]
    simp only
    split_ifs
    · rwa [isBare_closeTag]
    · exact mt (isBare_close _ _).1 hpushed
    · exact hpushed

theorem isBare_foldl (events : List Event) :
    (events.foldl apply b).IsBare ↔ b.IsBare ∧ ∀ event ∈ events, event.isSilent = true := by
  induction events generalizing b with
  | nil => simp
  | cons event events ih => rw [List.foldl_cons, ih, isBare_apply, List.forall_mem_cons, and_assoc]

/-- Behind a division that has been closed nothing is made exactly if no event there makes a node. -/
theorem remainder_eq_nil_iff {owed : List Text} {events : List Event} :
    remainder owed events = [] ↔ ∀ event ∈ events, event.isSilent = true := by
  rw [remainder, finish_eq_nil_iff, isBare_foldl]
  exact and_iff_right ⟨rfl, rfl, rfl⟩

/-- The builder with other closing tags owed. -/
def owing (owed : List Text) : Builder := { b with owed := owed }

variable (owed : List Text)

theorem add_owing (node : Node) : (b.owing owed).add node = (b.add node).owing owed := by
  obtain ⟨stack, done, pending, _⟩ := b
  cases stack <;> rfl

theorem flush_owing : (b.owing owed).flush = b.flush.owing owed := by
  rw [flush, flush, show (b.owing owed).pending = b.pending from rfl]
  split
  · rfl
  · rw [← add_owing]
    rfl

theorem pop_owing (count : Nat) : (b.owing owed).pop count = (b.pop count).owing owed := by
  induction count generalizing b with
  | zero => rfl
  | succ count ih =>
    obtain ⟨stack, done, pending, _⟩ := b
    cases stack with
    | nil => rfl
    | cons e outer =>
      rw [pop_cons, ← ih, ← add_owing]
      rfl

/-- The tree does not depend on the tags that are still owed at the end. -/
theorem finish_owing : (b.owing owed).finish = b.finish := by
  rw [finish_eq, closed, flush_owing, pop_owing]
  rfl

/-- What is closed earlier than at the end is the same. -/
theorem finish_close (name : Text) : (b.close name).finish = b.finish := by
  have hflush : ∀ count ≤ b.flush.stack.length, (b.flush.pop count).finish = b.finish := by
    intro count hcount
    have hlength : (b.flush.pop count).stack.length = b.flush.stack.length - count := by
      rw [← length_openNames, (pop_keeps _ _).1, List.length_drop, length_openNames]
    rw [finish_eq, closed, flush_of_pending ((pop_keeps _ _).2.1.trans (pending_flush b)), hlength, ← pop_add,
      Nat.add_sub_cancel' hcount]
    rfl
  rw [close]
  split
  · next depth hfound =>
    obtain ⟨hlt, -⟩ := List.findIdx?_eq_some_iff_getElem.1 hfound
    exact hflush _ hlt
  · exact hflush 0 (Nat.zero_le _)

theorem finish_foldl_of_isSilent {events : List Event} (h : ∀ event ∈ events, event.isSilent = true) :
    (events.foldl apply b).finish = b.finish := by
  induction events generalizing b with
  | nil => rfl
  | cons event events ih =>
    obtain ⟨hevent, hevents⟩ := List.forall_mem_cons.1 h
    rw [List.foldl_cons, ih _ hevents]
    cases event with
    | text content =>
      rw [List.isEmpty_iff.1 hevent, apply, List.append_nil]
    | closing name =>
      show (b.closeTag name).finish = b.finish
      rw [closeTag]
      split
      · exact finish_owing _ _
      · exact finish_close _ _
    | opening => cases hevent
    | markup => cases hevent

/-- If nothing behind the first stray tag makes a node, the tree is that of the events in front of it. -/
theorem finish_foldl_kept {events : List Event} (h : ∀ event ∈ (b.splitStray events).2, event.isSilent = true) :
    ((b.splitStray events).1.foldl apply b).finish = (events.foldl apply b).finish := by
  induction events generalizing b with
  | nil => rfl
  | cons event events ih =>
    rw [splitStray] at h ⊢
    by_cases hstray : b.IsStray event
    · rw [if_pos hstray] at h ⊢
      have hsilent : event.isSilent = true := by
        cases event with
        | closing => rfl
        | opening => exact hstray.elim
        | text => exact hstray.elim
        | markup => exact hstray.elim
      exact (finish_foldl_of_isSilent b (List.forall_mem_cons.2 ⟨hsilent, h⟩)).symm
    · rw [if_neg hstray] at h ⊢
      exact ih _ h

end Builder

/-! ### Pages -/

/-- The events of a page inside a division. -/
theorem events_division (t : Text) : events ("<div>" ++ t) = (events t).map (.opening "div" [] false :: ·) := by
  have hstep : step ⟨false, none⟩ '<' ("div>" ++ t) = .ok ([.opening "div" [] false], t, ⟨false, none⟩) := by
    have hbracketed : bracketed ("div>" ++ t) = .ok (some ([.opening "div" [] false], t)) := rfl
    simp only [step, hbracketed]
    rfl
  have hskip : (("div>" : Text) ++ t).length - t.length = 4 := by
    rw [List.length_append, Nat.add_sub_cancel]
    rfl
  have hevents : events ("<div>" ++ t) = (do
      let later ← eventsFrom ⟨false, none⟩ 4 ("div>" ++ t)
      return [.opening "div" [] false] ++ later) := by
    rw [← hskip]
    show eventsFrom ⟨false, none⟩ 0 (CodePoint.ofChar '<' :: ("div>" ++ t)) = _
    rw [eventsFrom, hstep]
    rfl
  rw [hevents, show eventsFrom ⟨false, none⟩ 4 ("div>" ++ t) = events t from rfl]
  cases events t <;> rfl

/-- The events in front of the first stray tag. -/
def kept (events : List Event) : List Event := (Builder.empty.splitStray events).1

/-- The events behind the first stray tag. -/
def lost (events : List Event) : List Event := (Builder.empty.splitStray events).2

/-- The tree of a page inside a division is the division, and what is made behind it if the page closes it early. -/
theorem ofEvents_division (events : List Event) : ∃ owed, Node.ofEvents (.opening "div" [] false :: events) =
    .element "div" [] (Node.ofEvents (kept events)) :: Builder.remainder owed (lost events) :=
  ⟨_, Builder.finish_foldl_enclosed Builder.empty events⟩

theorem ofEvents_kept {events : List Event} (h : ∀ event ∈ lost events, event.isSilent = true) :
    Node.ofEvents (kept events) = Node.ofEvents events := Builder.finish_foldl_kept Builder.empty h

/-- No markup is left open at the end of a page: a closing tag behind it is read by itself. -/
def EndsClear (html : Text) : Prop := events (html ++ ("</div>" : Text)) = (events html).map (· ++ [.closing "div"])

theorem EndsClear.parse_eq {html : Text} (h : EndsClear html) : Node.parse (html ++ ("</div>" : Text)) = Node.parse html := by
  rw [Node.parse, Node.parse, h]
  cases events html with
  | error r => rfl
  | ok es =>
    have hsilent : ∀ event ∈ [Event.closing "div"], event.isSilent = true := by decide
    have htree : Node.ofEvents (es ++ [.closing "div"]) = Node.ofEvents es := by
      rw [Node.ofEvents, List.foldl_append, Builder.finish_foldl_of_isSilent _ hsilent]
      rfl
    exact congrArg Except.ok htree

end EquationExport.Html

namespace EquationExport.Document

open EquationExport.Html (Node Event events kept lost EndsClear)

theorem content_division (attributes : List (Text × Text)) (children rest : List Node) :
    content (.element "div" attributes children :: rest) = children := by
  have hfound : (Node.subtrees (.element "div" attributes children :: rest)).find? (·.isNamed "div") =
      some (.element "div" attributes children) := List.find?_cons_of_pos (by simp [Node.isNamed, Node.name?])
  rw [content, hfound]
  rfl

/--
What is walked of a page is the tree of its events up to the first closing tag of a division that finds no division of the
page open. Nothing of the page stands beside the division in which it is read exactly if no event behind that tag makes
a node, and then all that the page makes by itself is walked.
-/
theorem outline_whole_iff (html : Text) :
    outline html = (events (html ++ ("</div>" : Text))).map (fun es => blocks (Node.ofEvents (kept es))) ∧
      ∀ es, events (html ++ ("</div>" : Text)) = .ok es → ∃ page, Node.parse ("<div>" ++ html ++ ("</div>" : Text)) = .ok page ∧
        content page = Node.ofEvents (kept es) ∧
        (page = [.element "div" [] (content page)] ↔ ∀ event ∈ lost es, event.isSilent = true) ∧
        ((∀ event ∈ lost es, event.isSilent = true) → Node.parse (html ++ ("</div>" : Text)) = .ok (content page) ∧
          (EndsClear html → Node.parse html = .ok (content page))) := by
  have hevents : events ("<div>" ++ html ++ ("</div>" : Text)) =
      (events (html ++ ("</div>" : Text))).map (.opening "div" [] false :: ·) := by
    rw [List.append_assoc]
    exact Html.events_division _
  have hpage : ∀ es, events (html ++ ("</div>" : Text)) = .ok es → ∃ owed, Node.parse ("<div>" ++ html ++ ("</div>" : Text)) =
      .ok (.element "div" [] (Node.ofEvents (kept es)) :: Html.Builder.remainder owed (lost es)) := by
    intro es hes
    obtain ⟨owed, htree⟩ := Html.ofEvents_division es
    exact ⟨owed, by rw [Node.parse, hevents, hes, ← htree]; rfl⟩
  constructor
  · cases hes : events (html ++ ("</div>" : Text)) with
    | error r =>
      rw [outline, Node.parse, hevents, hes]
      rfl
    | ok es =>
      obtain ⟨owed, hparse⟩ := hpage es hes
      rw [outline, hparse]
      exact congrArg (fun nodes => Except.ok (blocks nodes)) (content_division _ _ _)
  · intro es hes
    obtain ⟨owed, hparse⟩ := hpage es hes
    refine ⟨_, hparse, content_division _ _ _, ?_, fun hsilent => ?_⟩
    · rw [content_division, List.cons.injEq, and_iff_right rfl, Html.Builder.remainder_eq_nil_iff]
    · have hwhole : Node.parse (html ++ ("</div>" : Text)) = .ok (Node.ofEvents (kept es)) := by
        rw [Html.ofEvents_kept hsilent, Node.parse, hes]
        rfl
      rw [content_division]
      exact ⟨hwhole, fun hclear => hclear.parse_eq ▸ hwhole⟩

/-- A paragraph that is never closed, with a division in it: all of the page is walked. -/
theorem outline_whole_unclosed :
    let html : Text := "<p>a<div>b</div>c"
    ∃ page, Node.parse ("<div>" ++ html ++ ("</div>" : Text)) = .ok page ∧ page = [.element "div" [] (content page)] ∧
      Node.parse html = .ok (content page) := by
  intro html
  have hclear : EndsClear html := rfl
  have hsilent : (events (html ++ ("</div>" : Text))).toOption.any (fun es => (lost es).all (·.isSilent)) = true := by
    decide +kernel
  obtain ⟨es, hes, hlost⟩ := exists_ok_of_any hsilent
  have hlost' : ∀ event ∈ lost es, event.isSilent = true := List.all_eq_true.1 hlost
  obtain ⟨page, hparse, -, hwhole, htree⟩ := (outline_whole_iff html).2 es hes
  exact ⟨page, hparse, hwhole.2 hlost', (htree hlost').2 hclear⟩

/-- The nodes are a division and one more element, in which the given text stands. -/
def isFollowedBy (t : Text) : List Node → Bool
  | [.element name attributes _, node] => name == "div" && (attributes.isEmpty && node.textContent == t)
  | _ => false

theorem eq_of_isFollowedBy {t : Text} {page : List Node} (h : isFollowedBy t page = true) :
    ∃ node, page = [.element "div" [] (content page), node] ∧ node.textContent = t := by
  unfold isFollowedBy at h
  split at h
  · next name attributes children node =>
    simp only [Bool.and_eq_true, beq_iff_eq, List.isEmpty_iff] at h
    obtain ⟨rfl, rfl, htext⟩ := h
    exact ⟨node, by rw [content_division], htext⟩
  · cases h

/-- A closing tag with nothing to close: the paragraph behind it stands beside the division that is walked, and is lost. -/
theorem create_loses_tail :
    let s : Surroundings := ⟨⟨fun _ => none, fun _ _ => none⟩, ⟨[], [], 8000, [], "Cambria Math", "Consolas", 5000, []⟩⟩
    let html : Text := "<p>a</p></div><p>b</p>"
    ∃ (page : List Node) (node : Node) (blocks : List (Block Inline)) (composed : List (Block Piece)) (registry : Registry),
      Node.parse ("<div>" ++ html ++ ("</div>" : Text)) = .ok page ∧ page = [.element "div" [] (content page), node] ∧
      node.textContent = "b" ∧ outline html = .ok blocks ∧ (compose s blocks).value = .ok (composed, registry) ∧
      contentOfBlocks composed = [.run ⟨"a", none, false, false, false⟩] := by
  intro s html
  have hpage : (Node.parse ("<div>" ++ html ++ ("</div>" : Text))).toOption.any (isFollowedBy "b") = true := by decide +kernel
  have hblocks : (outline html).toOption.any (fun blocks => (compose s blocks).value.toOption.any
      fun found => contentOfBlocks found.1 = [.run ⟨"a", none, false, false, false⟩]) = true := by decide +kernel
  obtain ⟨page, hparse, htest⟩ := exists_ok_of_any hpage
  obtain ⟨node, hnodes, htext⟩ := eq_of_isFollowedBy htest
  obtain ⟨blocks, houtline, hcomposed⟩ := exists_ok_of_any hblocks
  obtain ⟨⟨composed, registry⟩, hcompose, hruns⟩ := exists_ok_of_any hcomposed
  exact ⟨page, node, blocks, composed, registry, hparse, hnodes, htext, houtline, hcompose, of_decide_eq_true hruns⟩

end EquationExport.Document
