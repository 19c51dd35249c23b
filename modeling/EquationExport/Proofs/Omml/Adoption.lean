import EquationExport.Proofs.Omml.Complete
import EquationExport.Proofs.Omml.Glued
import Mathlib.Data.List.Chain

/-!
# The bodies that operators adopt

An n-ary operator with an empty body takes the run behind it, or else stays as it is. What becomes of a tree is told by
the relation `Adoption`, with one rule for each thing that can happen to a node; nothing else moves, and nothing else
changes but that a body is supplied where there is none.

That no operator is left with an empty body before a run that it could take is not quite so. Whether a run may be taken is
asked once, before anything is adopted inside it. If there are operators in the run itself, the text of the run may have
another order afterwards, so that it is a differential no more. That needs an operator with text behind its body, and the
schema has the body last.
-/

namespace EquationExport.Omml

open Xml Xml.Node Repair

variable {node next run : Node} {l l' rest : List Node} {f : Fragment}

/-! ### What becomes of a tree -/

/-- A run that may become a body: its text is not blank, and neither a closing delimiter nor a differential. -/
def MayBeBody (run : Node) : Prop :=
  ∃ text, run.runText? = some text ∧ text.isBlank = false ∧ isClosing text.trim = false ∧ isDifferential text = false

/-- What becomes of neighbours when operators adopt their bodies. -/
inductive Adoption : List Node → List Node → Prop where
  | nil : Adoption [] []
  /-- A comment or an instruction stays. -/
  | note {n : Node} {l l' : List Node} : n.tag? = none → Adoption l l' → Adoption (n :: l) (n :: l')
  /-- An element stays where it is, an operator with a body among them, and so does what it holds but for adoptions inside. -/
  | stay {tag : Tag} {text : Option Text} {children children' : List Node} {tail : Text} {l l' : List Node} :
    ((element tag text children tail).isNamed "nary" = true → ∃ n ∈ children, n.isNamed "e" = true) →
    Adoption children children' → Adoption l l' →
    Adoption (element tag text children tail :: l) (element tag text children' tail :: l')
  /-- An operator without a body gets an empty one, behind all that it holds. -/
  | supply {tag : Tag} {text : Option Text} {children children' : List Node} {tail : Text} {l l' : List Node} :
    (element tag text children tail).isNamed "nary" = true → (∀ n ∈ children, n.isNamed "e" = false) →
    Adoption children children' → Adoption l l' →
    Adoption (element tag text children tail :: l) (element tag text (children' ++ [mathElement "e" []]) tail :: l')
  /-- An operator whose body is empty takes the run right behind it for its body. -/
  | adopt {operator run run' body : Node} {tag : Tag} {text : Option Text} {front rest : List Node} {tail : Text}
      {l l' : List Node} :
    operator.isNamed "nary" = true → Adoption [operator] [element tag text (front ++ body :: rest) tail] →
    (∀ n ∈ front, n.isNamed "e" = false) → body.isNamed "e" = true → body.isEmptySlot = true →
    MayBeBody run → Adoption [run] [run'] → Adoption l l' →
    Adoption (operator :: run :: l) (element tag text (front ++ body.withChildren [run'] :: rest) tail :: l')

theorem Adoption.append {a a' b b' : List Node} (h : Adoption a a') (hb : Adoption b b') : Adoption (a ++ b) (a' ++ b') := by
  induction h with
  | nil => exact hb
  | note hn _ ih => exact .note hn ih
  | stay hbody hinside _ _ ih => exact .stay hbody hinside ih
  | supply hnary hnone hinside _ _ ih => exact .supply hnary hnone hinside ih
  | adopt hnary hoperator hfront hbody hempty hmay hrun _ _ _ ih =>
    exact .adopt hnary hoperator hfront hbody hempty hmay hrun ih

theorem mayBeBody_of_isAdoptable (h : isAdoptable run = true) : MayBeBody run := by
  unfold isAdoptable at h
  split at h
  · next text htext =>
    simp only [Bool.and_eq_true, Bool.not_eq_true'] at h
    exact ⟨text, htext, h.1.1, h.1.2, h.2⟩
  · cases h

/-! ### Neighbours -/

/-- Induction along neighbours: a node stays and is gone through, or it is an operator and takes the run behind it. -/
@[elab_as_elim]
theorem adoptAmong_induction {Q : List Node → Prop} (nil : Q [])
    (stay : ∀ node l, (∀ next ∈ l.head?, adopts node next = false) →
      adoptAmong (node :: l) = adoptInside node :: adoptAmong l → Q l → Q (node :: l))
    (adopt : ∀ node run l, adopts node run = true →
      adoptAmong (node :: run :: l) = appendToBody (adoptInside node) (adoptInside run) :: adoptAmong l →
      Q l → Q (node :: run :: l)) : ∀ l, Q l
  | [] => nil
  | [node] => stay node [] (by simp) rfl nil
  | node :: next :: rest => by
    cases hadopts : adopts node next with
    | true =>
      exact adopt node next rest hadopts (by rw [adoptAmong]; exact if_pos hadopts) (adoptAmong_induction nil stay adopt rest)
    | false =>
      refine stay node (next :: rest) (fun n hn => ?_) ?_ (adoptAmong_induction nil stay adopt (next :: rest))
      · obtain rfl : next = n := by simpa using hn
        exact hadopts
      · rw [adoptAmong]
        exact if_neg (Bool.eq_false_iff.1 hadopts)

theorem isNamed_of_adopts (h : adopts node run = true) : node.isNamed "nary" = true ∧ run.isRun = true := by
  obtain ⟨hlacks, hadoptable⟩ := Bool.and_eq_true_iff.1 h
  exact ⟨(Bool.and_eq_true_iff.1 hlacks).1, isRun_of_isAdoptable hadoptable⟩

theorem not_slot_of_adopts (h : adopts node run = true) : node.isNamed "e" = false ∧ run.isNamed "e" = false :=
  ⟨isNamed_of_isNamed (isNamed_of_adopts h).1 (by decide), isNamed_of_isNamed (isNamed_of_adopts h).2 (by decide)⟩

theorem isNamed_appendToBody (node new : Node) (name : Text) : (appendToBody node new).isNamed name = node.isNamed name :=
  isNamed_withChildren _ _ _

/-- A slot adopts nothing. -/
theorem slot_adopts (h : node.isNamed "e" = true) (next : Node) : adopts node next = false := by
  have hnary : node.isNamed "nary" = false := isNamed_of_isNamed h (by decide)
  rw [adopts, lacksBody, hnary]
  rfl

theorem isAdoptable_of_not_run (h : next.isRun = false) : isAdoptable next = false :=
  Bool.eq_false_iff.2 fun hadoptable => Bool.eq_false_iff.1 h (isRun_of_isAdoptable hadoptable)

/-- A slot is not adopted. -/
theorem adopts_slot (h : next.isNamed "e" = true) (node : Node) : adopts node next = false := by
  rw [adopts, isAdoptable_of_not_run (isNamed_of_isNamed h (by decide)), Bool.and_false]

/-- The first slot is gone through and stays the first. -/
theorem find?_adoptAmong (l : List Node) :
    (adoptAmong l).find? (·.isNamed "e") = (l.find? (·.isNamed "e")).map adoptInside := by
  induction l using adoptAmong_induction with
  | nil => rfl
  | stay node l _ heq ih =>
    rw [heq, List.find?_cons, List.find?_cons, isNamed_adoptInside, ih]
    cases node.isNamed "e" <;> rfl
  | adopt node run l hadopts heq ih =>
    obtain ⟨hnode, hrun⟩ := not_slot_of_adopts hadopts
    rw [heq, List.find?_cons, List.find?_cons, List.find?_cons, isNamed_appendToBody, isNamed_adoptInside, hnode, hrun, ih]

theorem isEmpty_adoptAmong (l : List Node) : (adoptAmong l).isEmpty = l.isEmpty := by
  cases l using adoptAmong_induction with
  | nil => rfl
  | stay node l _ heq | adopt node run l _ heq => rw [heq]; rfl

/-! ### One operator -/

/-- Once gone through, an operator has the slot that it had, or an empty one. -/
theorem slot?_adoptInside (h : node.isNamed "nary" = true) :
    (adoptInside node).slot? "e" = some ((node.slot? "e").elim (mathElement "e" []) adoptInside) := by
  cases node with
  | element tag text children tail =>
    have hnary : (element tag text (adoptAmong children) tail).isNamed "nary" = true := h
    have hslot : (element tag text (adoptAmong children) tail).slot? "e" =
        ((element tag text children tail).slot? "e").map adoptInside := find?_adoptAmong children
    rw [adoptInside, ensureBody, hnary, Bool.true_and, hslot]
    cases hold : (element tag text children tail).slot? "e" with
    | some body =>
      rw [hold] at hslot
      exact hslot
    | none =>
      have hnone : (adoptAmong children).find? (·.isNamed "e") = none := by
        rw [hold] at hslot
        exact hslot
      show (adoptAmong children ++ [mathElement "e" []]).find? (·.isNamed "e") = _
      rw [List.find?_append, hnone, List.find?_singleton, isNamed_mathElement]
      rfl
  | comment | instruction => cases h

theorem isEmptySlot_adoptInside (h : node.isNamed "nary" = false) : (adoptInside node).isEmptySlot = node.isEmptySlot := by
  cases node with
  | element tag text children tail =>
    have hnary : (element tag text (adoptAmong children) tail).isNamed "nary" = false := h
    rw [adoptInside, ensureBody, hnary, Bool.false_and, if_neg Bool.false_ne_true]
    exact congrArg (· && _) (isEmpty_adoptAmong children)
  | comment | instruction => rfl

theorem lacksBody_adoptInside (node : Node) : lacksBody (adoptInside node) = lacksBody node := by
  rw [lacksBody, lacksBody, isNamed_adoptInside]
  cases hnary : node.isNamed "nary" with
  | false => rfl
  | true =>
    rw [slot?_adoptInside hnary]
    cases hslot : node.slot? "e" with
    | none => rfl
    | some body =>
      have hfind : node.children.find? (·.isNamed "e") = some body := hslot
      have hbody : body.isNamed "e" = true := by simpa using List.find?_some hfind
      exact congrArg (true && ·) (isEmptySlot_adoptInside (isNamed_of_isNamed hbody (by decide)))

/-- An operator that lacks a body, once gone through, has an empty one, and what it takes becomes all that this holds. -/
theorem exists_body_of_lacksBody (h : lacksBody node = true) : ∃ tag text front body rest tail,
    adoptInside node = element tag text (front ++ body :: rest) tail ∧ (∀ n ∈ front, n.isNamed "e" = false) ∧
      body.isNamed "e" = true ∧ body.isEmptySlot = true ∧
      ∀ new, appendToBody (adoptInside node) new = element tag text (front ++ body.withChildren [new] :: rest) tail := by
  have hlacks := (lacksBody_adoptInside node).trans h
  have hnary : node.isNamed "nary" = true := (Bool.and_eq_true_iff.1 h).1
  cases hinside : adoptInside node with
  | element tag text children tail =>
    rw [hinside] at hlacks
    obtain ⟨body, hbody⟩ := Option.isSome_iff_exists.1 (isSome_slot?_adoptInside hnary)
    rw [hinside] at hbody
    obtain ⟨hnamed, front, rest, rfl, hfront⟩ := List.find?_eq_some_iff_append.1 hbody
    have hfront' : ∀ n ∈ front, n.isNamed "e" = false := fun n hn => by simpa using hfront n hn
    have hempty : body.isEmptySlot = true := by
      have hslot := (Bool.and_eq_true_iff.1 hlacks).2
      rwa [hbody] at hslot
    refine ⟨tag, text, front, body, rest, tail, rfl, hfront', hnamed, hempty, fun new => ?_⟩
    have hnone : body.children = [] := List.isEmpty_iff.1 (Bool.and_eq_true_iff.1 hempty).1
    rw [appendToBody, withChildren_element, children_element, modifyFirst_append _ front rest hfront' hnamed, hnone]
    rfl
  | comment | instruction =>
    rw [hinside] at hlacks
    cases hlacks

/-! ### The whole tree -/

theorem adoption_adoptAmong_of_inside (h : ∀ n ∈ l, Adoption [n] [adoptInside n]) : Adoption l (adoptAmong l) := by
  induction l using adoptAmong_induction with
  | nil => exact .nil
  | stay node l _ heq ih =>
    rw [heq]
    exact (h node List.mem_cons_self).append (ih fun n hn => h n (List.mem_cons_of_mem _ hn))
  | adopt node run l hadopts heq ih =>
    obtain ⟨hlacks, hadoptable⟩ := Bool.and_eq_true_iff.1 hadopts
    obtain ⟨tag, text, front, body, rest, tail, hinside, hfront, hbody, hempty, happend⟩ := exists_body_of_lacksBody hlacks
    rw [heq, happend]
    exact .adopt (isNamed_of_adopts hadopts).1 (hinside ▸ h node (by simp)) hfront hbody hempty
      (mayBeBody_of_isAdoptable hadoptable) (h run (by simp)) (ih fun n hn => h n (by simp [hn]))

theorem adoption_adoptInside (node : Node) : Adoption [node] [adoptInside node] := by
  induction node using tree_induction with
  | element tag text children tail ih =>
    have hchildren : Adoption children (adoptAmong children) := adoption_adoptAmong_of_inside ih
    have hslot : (element tag text (adoptAmong children) tail).slot? "e" = (children.find? (·.isNamed "e")).map adoptInside :=
      find?_adoptAmong children
    rw [adoptInside, ensureBody, hslot, Option.isNone_map]
    split
    · next hsupply =>
      obtain ⟨hnary, hnone⟩ := Bool.and_eq_true_iff.1 hsupply
      exact .supply hnary (by simpa using hnone) hchildren .nil
    · next hstay =>
      refine .stay (fun hnary => ?_) hchildren .nil
      by_contra hnone
      exact hstay (Bool.and_eq_true_iff.2 ⟨hnary, by simpa using hnone⟩)
  | comment | instruction => exact .note rfl .nil

theorem adoption_adoptAmong (l : List Node) : Adoption l (adoptAmong l) :=
  adoption_adoptAmong_of_inside fun n _ => adoption_adoptInside n

/-! ### The text of runs -/

/-- What stands behind the first body. -/
def behindBody : List Node → List Node
  | [] => []
  | node :: rest => if node.isNamed "e" then rest else behindBody rest

/-- No text stands in an operator behind its body. -/
def EndsInBody (node : Node) : Prop := node.isNamed "nary" = true → joinedText (behindBody node.children) = []

instance (node : Node) : Decidable (EndsInBody node) := inferInstanceAs (Decidable (_ → _))

theorem behindBody_append {front : List Node} {body : Node} (hfront : ∀ n ∈ front, n.isNamed "e" = false)
    (hbody : body.isNamed "e" = true) (rest : List Node) : behindBody (front ++ body :: rest) = rest := by
  induction front with
  | nil => exact if_pos hbody
  | cons n front ih =>
    rw [List.cons_append, behindBody, if_neg (Bool.eq_false_iff.1 (hfront n List.mem_cons_self))]
    exact ih fun n hn => hfront n (List.mem_cons_of_mem _ hn)

theorem behindBody_suffix (l : List Node) : behindBody l <:+ l := by
  induction l with
  | nil => exact List.suffix_refl []
  | cons node l ih =>
    rw [behindBody]
    split
    · exact List.suffix_cons node l
    · exact ih.trans (List.suffix_cons node l)

theorem behindBody_adoptAmong (l : List Node) : behindBody (adoptAmong l) = adoptAmong (behindBody l) := by
  induction l using adoptAmong_induction with
  | nil => rfl
  | stay node l _ heq ih =>
    rw [heq, behindBody, behindBody, isNamed_adoptInside, ih]
    split <;> rfl
  | adopt node run l hadopts heq ih =>
    obtain ⟨hnode, hrun⟩ := not_slot_of_adopts hadopts
    rw [heq, behindBody, behindBody, behindBody, isNamed_appendToBody, isNamed_adoptInside, hnode, hrun, ih]
    rfl

theorem joinedText_cons (node : Node) (l : List Node) : joinedText (node :: l) = joinedText [node] ++ joinedText l :=
  joinedText_append [node] l

theorem joinedText_element (tag : Tag) (text : Option Text) (children : List Node) (tail : Text) :
    joinedText [element tag text children tail] =
      (if (element tag text [] tail).isNamed "t" then text.getD [] else []) ++ joinedText children := by
  have hname : (element tag text children tail).isNamed "t" = (element tag text [] tail).isNamed "t" := rfl
  simp only [joinedText, subtrees_cons, subtrees_nil, List.append_nil, subtree, List.filter_cons, hname]
  split <;> rfl

/-- What an empty slot takes is all the text that comes into it. -/
theorem joinedText_withChildren_of_isEmpty {body : Node} (hbody : body.isNamed "e" = true) (hempty : body.isEmptySlot = true)
    (new : Node) : joinedText [body.withChildren [new]] = joinedText [body] ++ joinedText [new] := by
  cases body with
  | element tag text children tail =>
    obtain rfl : children = [] := List.isEmpty_iff.1 (Bool.and_eq_true_iff.1 hempty).1
    rw [withChildren_element, joinedText_element, joinedText_element]
    exact (congrArg (· ++ _) (List.append_nil _)).symm
  | comment | instruction => cases hbody

/-- A run that is adopted stands behind all text of its operator, where no text stands behind the body. -/
theorem joinedText_appendToBody (hlacks : lacksBody node = true) (hends : EndsInBody (adoptInside node)) (new : Node) :
    joinedText [appendToBody (adoptInside node) new] = joinedText [adoptInside node] ++ joinedText [new] := by
  obtain ⟨tag, text, front, body, rest, tail, hinside, hfront, hbody, hempty, happend⟩ := exists_body_of_lacksBody hlacks
  have hnary : (adoptInside node).isNamed "nary" = true := by
    rw [isNamed_adoptInside]
    exact (Bool.and_eq_true_iff.1 hlacks).1
  have hrest : joinedText rest = [] := by
    have hbehind := hends hnary
    rwa [hinside, children_element, behindBody_append hfront hbody] at hbehind
  rw [happend, hinside, joinedText_element, joinedText_element, joinedText_append, joinedText_append, joinedText_cons,
    joinedText_cons body, hrest, joinedText_withChildren_of_isEmpty hbody hempty, List.append_nil, List.append_nil]
  simp only [List.append_assoc]

theorem joinedText_adoptAmong_of_inside
    (h : ∀ n ∈ l, joinedText [adoptInside n] = joinedText [n] ∧ EndsInBody (adoptInside n)) :
    joinedText (adoptAmong l) = joinedText l := by
  induction l using adoptAmong_induction with
  | nil => rfl
  | stay node l _ heq ih =>
    rw [heq, joinedText_cons, joinedText_cons node, (h node (by simp)).1, ih fun n hn => h n (by simp [hn])]
  | adopt node run l hadopts heq ih =>
    have hlacks := (Bool.and_eq_true_iff.1 hadopts).1
    rw [heq, joinedText_cons, joinedText_cons node, joinedText_cons run, joinedText_appendToBody hlacks (h node (by simp)).2,
      (h node (by simp)).1, (h run (by simp)).1, ih fun n hn => h n (by simp [hn]), List.append_assoc]

/-- Where no text stands behind bodies, adoption leaves the text as it is, and it still does not stand there. -/
theorem joinedText_adoptInside (node : Node) : Everywhere EndsInBody [node] →
    joinedText [adoptInside node] = joinedText [node] ∧ EndsInBody (adoptInside node) := by
  induction node using tree_induction with
  | element tag text children tail ih =>
    intro h
    obtain ⟨hroot, hbelow⟩ := everywhere_singleton.1 h
    have hchildren : joinedText (adoptAmong children) = joinedText children :=
      joinedText_adoptAmong_of_inside fun n hn => ih n hn (hbelow.of_mem hn)
    have hbehind : joinedText (adoptAmong (behindBody children)) = joinedText (behindBody children) :=
      joinedText_adoptAmong_of_inside fun n hn =>
        ih n ((behindBody_suffix children).subset hn) (hbelow.of_mem ((behindBody_suffix children).subset hn))
    rw [adoptInside, ensureBody]
    split
    · next hsupply =>
      refine ⟨?_, fun _ => ?_⟩
      · rw [withChildren_element, children_element, joinedText_element, joinedText_element, joinedText_append, hchildren,
          joinedText_mathElement [] (by decide)]
        exact congrArg (_ ++ ·) (List.append_nil _)
      · have hnone : ∀ n ∈ adoptAmong children, n.isNamed "e" = false := by
          simpa [slot?] using (Bool.and_eq_true_iff.1 hsupply).2
        have hslot : (mathElement "e" []).isNamed "e" = true := isNamed_mathElement "e" "e" []
        rw [withChildren_element, children_element, children_element, behindBody_append hnone hslot]
        rfl
    · refine ⟨by rw [joinedText_element, joinedText_element, hchildren], fun hnary => ?_⟩
      rw [children_element, behindBody_adoptAmong, hbehind]
      exact hroot hnary
  | comment | instruction => exact fun h => ⟨rfl, (everywhere_singleton.1 h).1⟩

/-! ### What is left to adopt -/

/-- No text stands behind a body in the node if it is a run. -/
def KeepsText (node : Node) : Prop := node.isRun = true → Everywhere EndsInBody [node]

instance (node : Node) : Decidable (KeepsText node) := inferInstanceAs (Decidable (_ → _))

/-- Whether a run may be adopted is not changed by adoptions inside it. -/
theorem isAdoptable_adoptInside (h : KeepsText node) : isAdoptable (adoptInside node) = isAdoptable node := by
  have hrun' : (adoptInside node).isRun = node.isRun := isNamed_adoptInside node "r"
  cases hrun : node.isRun with
  | false => rw [isAdoptable_of_not_run hrun, isAdoptable_of_not_run (hrun'.trans hrun)]
  | true =>
    have htext : (adoptInside node).runText? = node.runText? := by
      rw [runText?_of_isRun hrun, runText?_of_isRun (hrun'.trans hrun), (joinedText_adoptInside node (h hrun)).1]
    rw [isAdoptable, isAdoptable, htext]

theorem head?_adoptAmong (h : ∀ n ∈ l, KeepsText n) :
    (adoptAmong l).head?.map isAdoptable = l.head?.map isAdoptable := by
  cases l using adoptAmong_induction with
  | nil => rfl
  | stay node l _ heq =>
    rw [heq]
    exact congrArg some (isAdoptable_adoptInside (h node List.mem_cons_self))
  | adopt node run l hadopts heq =>
    have hnode : node.isRun = false := isNamed_of_isNamed (isNamed_of_adopts hadopts).1 (by decide)
    have hnew : (appendToBody (adoptInside node) (adoptInside run)).isRun = false :=
      (isNamed_appendToBody _ _ "r").trans ((isNamed_adoptInside node "r").trans hnode)
    rw [heq, List.head?_cons, List.head?_cons, Option.map_some, Option.map_some, isAdoptable_of_not_run hnode,
      isAdoptable_of_not_run hnew]

theorem lacksBody_appendToBody (h : lacksBody node = true) (new : Node) :
    lacksBody (appendToBody (adoptInside node) new) = false := by
  obtain ⟨tag, text, front, body, rest, tail, -, hfront, hbody, -, happend⟩ := exists_body_of_lacksBody h
  have hbody' : (body.withChildren [new]).isNamed "e" = true := (isNamed_withChildren body [new] "e").trans hbody
  have hslot : (element tag text (front ++ body.withChildren [new] :: rest) tail).slot? "e" = some (body.withChildren [new]) :=
    List.find?_eq_some_iff_append.2 ⟨hbody', front, rest, rfl, fun n hn => by simp [hfront n hn]⟩
  have hfull : (body.withChildren [new]).isEmptySlot = false := by
    cases body with
    | element => rfl
    | comment | instruction => cases hbody
  rw [happend, lacksBody, hslot]
  exact Bool.and_eq_false_iff.2 (.inr hfull)

/-- No two neighbours are left of which the first could adopt the second. -/
theorem isChain_adoptAmong (h : ∀ n ∈ l, KeepsText n) : (adoptAmong l).IsChain fun a b => adopts a b = false := by
  induction l using adoptAmong_induction with
  | nil => exact .nil
  | stay node l hfree heq ih =>
    have hrest : ∀ n ∈ l, KeepsText n := fun n hn => h n (List.mem_cons_of_mem _ hn)
    rw [heq]
    refine List.isChain_cons.2 ⟨fun next hnext => ?_, ih hrest⟩
    -- the next neighbour may be adopted as little as the one that stood there
    have hhead := head?_adoptAmong hrest
    rw [hnext, Option.map_some] at hhead
    obtain ⟨old, hold, hsame⟩ := Option.map_eq_some_iff.1 hhead.symm
    rw [adopts, lacksBody_adoptInside, ← hsame]
    exact hfree old hold
  | adopt node run l hadopts heq ih =>
    rw [heq]
    refine List.isChain_cons.2 ⟨fun next _ => ?_, ih fun n hn => h n (by simp [hn])⟩
    rw [adopts, lacksBody_appendToBody (Bool.and_eq_true_iff.1 hadopts).1]
    rfl

/-- Nothing is left to adopt among the children of the node. -/
def HasAdopted (node : Node) : Prop := node.children.IsChain fun a b => adopts a b = false

/-- Among neighbours with a slot between them it does not matter which slot that is. -/
theorem isChain_adopts_slot {front rest : List Node} {slot slot' : Node} (hslot' : slot'.isNamed "e" = true)
    (h : (front ++ slot :: rest).IsChain fun a b => adopts a b = false) :
    (front ++ slot' :: rest).IsChain fun a b => adopts a b = false := by
  obtain ⟨hfront, hbehind, -⟩ := List.isChain_append.1 h
  have hslot : (slot' :: rest).IsChain fun a b => adopts a b = false :=
    List.isChain_cons.2 ⟨fun y _ => slot_adopts hslot' y, (List.isChain_cons.1 hbehind).2⟩
  refine List.isChain_append.2 ⟨hfront, hslot, ?_⟩
  intro x _ y hy
  obtain rfl : slot' = y := by simpa using hy
  exact adopts_slot hslot' x

theorem hasAdopted_adoptAmong_of_inside (h : ∀ n ∈ l, Everywhere HasAdopted [adoptInside n]) :
    Everywhere HasAdopted (adoptAmong l) := by
  induction l using adoptAmong_induction with
  | nil => exact everywhere_nil
  | stay node l _ heq ih =>
    rw [heq]
    exact everywhere_cons.2 ⟨h node List.mem_cons_self, ih fun n hn => h n (List.mem_cons_of_mem _ hn)⟩
  | adopt node run l hadopts heq ih =>
    rw [heq]
    refine everywhere_cons.2 ⟨?_, ih fun n hn => h n (by simp [hn])⟩
    obtain ⟨tag, text, front, body, rest, tail, hinside, -, hbody, -, happend⟩ :=
      exists_body_of_lacksBody (Bool.and_eq_true_iff.1 hadopts).1
    have hnode := h node (by simp)
    rw [hinside] at hnode
    obtain ⟨hchain, hbelow⟩ := everywhere_singleton.1 hnode
    obtain ⟨hfront, hbehind⟩ := everywhere_append.1 hbelow
    have hbody' : (body.withChildren [adoptInside run]).isNamed "e" = true := (isNamed_withChildren body _ "e").trans hbody
    have hslot : Everywhere HasAdopted [body.withChildren [adoptInside run]] := by
      cases body with
      | element btag btext children btail =>
        exact everywhere_singleton.2 ⟨List.isChain_singleton _, h run (by simp)⟩
      | comment | instruction => cases hbody
    rw [happend]
    exact everywhere_singleton.2 ⟨isChain_adopts_slot hbody' hchain,
      everywhere_append.2 ⟨hfront, everywhere_cons.2 ⟨hslot, (everywhere_cons.1 hbehind).2⟩⟩⟩

theorem hasAdopted_adoptInside (node : Node) : Everywhere KeepsText [node] → Everywhere HasAdopted [adoptInside node] := by
  induction node using tree_induction with
  | element tag text children tail ih =>
    intro h
    obtain ⟨-, hbelow⟩ := everywhere_singleton.1 h
    have hchain : (adoptAmong children).IsChain fun a b => adopts a b = false :=
      isChain_adoptAmong fun n hn => (everywhere_singleton.1 (hbelow.of_mem hn)).1
    have hinside : Everywhere HasAdopted (adoptAmong children) :=
      hasAdopted_adoptAmong_of_inside fun n hn => ih n hn (hbelow.of_mem hn)
    rw [adoptInside, ensureBody]
    split
    · have hslot : (mathElement "e" []).isNamed "e" = true := isNamed_mathElement "e" "e" []
      refine everywhere_singleton.2 ⟨List.isChain_append.2 ⟨hchain, List.isChain_singleton _, fun x _ y hy => ?_⟩,
        everywhere_append.2 ⟨hinside, everywhere_singleton.2 ⟨.nil, everywhere_nil⟩⟩⟩
      obtain rfl : mathElement "e" [] = y := by simpa using hy
      exact adopts_slot hslot x
    · exact everywhere_singleton.2 ⟨hchain, hinside⟩
  | comment | instruction => exact fun _ => everywhere_singleton.2 ⟨.nil, everywhere_nil⟩

/--
What becomes of a fragment when operators adopt their bodies: each run that is moved goes into the empty body of the operator
right before it, and is not blank, no closing delimiter and no differential; but for that and the bodies that are supplied
nothing changes, and every operator has a body. If no text stands behind a body inside a run, then nothing is left to adopt,
neither in the fragment nor in any of its nodes.
-/
theorem adoption_adoptIntegrands (f : Fragment) :
    Adoption f.children (adoptIntegrands f).children ∧ (adoptIntegrands f).text = f.text ∧
      (∀ n ∈ (adoptIntegrands f).nodes, n.isNamed "nary" = true → (n.slot? "e").isSome = true) ∧
      ((∀ n ∈ f.nodes, n.isRun = true → ∀ m ∈ subtree n, EndsInBody m) →
        ∀ n ∈ (adoptIntegrands f).root :: (adoptIntegrands f).nodes, n.children.IsChain fun a b => adopts a b = false) := by
  refine ⟨adoption_adoptAmong f.children, rfl, hasBody_adoptIntegrands f, fun h => ?_⟩
  have hkeeps : Everywhere KeepsText f.children := fun n hn hrun => by
    intro m hm
    exact h n hn hrun m (by simpa using hm)
  intro n hn
  rcases List.mem_cons.1 hn with rfl | hn
  · exact isChain_adoptAmong fun n hn => (everywhere_singleton.1 (hkeeps.of_mem hn)).1
  · exact hasAdopted_adoptAmong_of_inside (fun n hn => hasAdopted_adoptInside n (hkeeps.of_mem hn)) n hn

/-- An operator in a limit of another, each with a run behind it, and a differential at the end. -/
def operatorInLimit : Fragment :=
  ⟨none, [mathElement "nary" [mathElement "sub" [mathElement "nary" [], plainRun "i"], mathElement "e" []],
    plainRun "x", plainRun "dx"]⟩

theorem adoption_adoptIntegrands_operatorInLimit :
    (∀ n ∈ operatorInLimit.nodes, n.isRun = true → ∀ m ∈ subtree n, EndsInBody m) ∧
      ∀ n ∈ (adoptIntegrands operatorInLimit).root :: (adoptIntegrands operatorInLimit).nodes,
        n.children.IsChain fun a b => adopts a b = false := by
  have hends : ∀ n ∈ operatorInLimit.nodes, n.isRun = true → ∀ m ∈ subtree n, EndsInBody m := by decide
  exact ⟨hends, (adoption_adoptIntegrands operatorInLimit).2.2.2 hends⟩

/-- A run that reads `dx` before the operator in it takes the second letter in front of the first. -/
def divertedDifferential : Fragment :=
  ⟨none, [mathElement "nary" [], mathElement "r" [mathElement "nary" [mathElement "e" [], mathElement "sub" [plainRun "d"]],
    plainRun "x"]]⟩

/-- An operator may be left before a run that it could take by then. -/
theorem exists_adopts_adoptIntegrands : ¬ ∀ f : Fragment, (adoptIntegrands f).children.IsChain fun a b => adopts a b = false :=
  fun h => absurd (h divertedDifferential) (by decide)

end EquationExport.Omml
