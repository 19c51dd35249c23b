import EquationExport.Omml.Repair.Delimiter
import EquationExport.Proofs.Omml.Property
import EquationExport.Proofs.Text.Legible

/-!
# Reading equation markup

A reader goes through a tree in document order and reads the text of runs, the sign of an n-ary operator
before its slots, and the delimiters of a delimiter construct around its content; signs and delimiters that
are not given have a default.
-/

namespace EquationExport.Omml

open Xml Xml.Node Repair

/-! ### What is read at a node -/

/-- The delimiter in front of the content of a delimiter construct. -/
def openingOf (node : Node) : Text := (node.property? "dPr" "begChr").getD "("

/-- The delimiter behind the content of a delimiter construct. -/
def closingOf (node : Node) : Text := (node.property? "dPr" "endChr").getD ")"

/-- What is read at a node before its children. -/
def readBefore (node : Node) : Text :=
  if node.isNamed "t" then node.text?.getD []
  else if node.isNamed "nary" then operatorOf node
  else if node.isNamed "d" then openingOf node
  else []

/-- What is read at a node after its children. -/
def readAfter (node : Node) : Text := if node.isNamed "d" then closingOf node else []

mutual

/-- What is read in a tree. -/
def reading : Node → Text
  | .element tag text children tail =>
    readBefore (.element tag text children tail) ++ readings children ++ readAfter (.element tag text children tail)
  | _ => []

/-- What is read in several trees. -/
def readings : List Node → Text
  | [] => []
  | node :: rest => reading node ++ readings rest

end

@[simp] theorem readings_nil : readings [] = [] := rfl

@[simp] theorem readings_cons (node : Node) (rest : List Node) :
    readings (node :: rest) = reading node ++ readings rest := rfl

@[simp] theorem readings_append (a b : List Node) : readings (a ++ b) = readings a ++ readings b := by
  induction a with
  | nil => rfl
  | cons node a ih => rw [List.cons_append, readings_cons, readings_cons, ih, List.append_assoc]

theorem reading_element (tag : Tag) (text : Option Text) (children : List Node) (tail : Text) :
    reading (.element tag text children tail) = readBefore (.element tag text children tail) ++ readings children ++
      readAfter (.element tag text children tail) := rfl

/-! ### The values of properties -/

/-- The values of the properties with a name, among the elements of a group. -/
def valuesOf (name : Text) (l : List Node) : List (Option Text) :=
  (l.filter (·.isNamed name)).map (·.attribute? valueName)

/-- The values of the properties with a name, in all groups of a kind among the children of a construct. -/
def groupValuesOf (group name : Text) (l : List Node) : List (Option Text) :=
  (l.filter (·.isNamed group)).flatMap fun g => valuesOf name g.children

@[simp] theorem valuesOf_append (name : Text) (a b : List Node) :
    valuesOf name (a ++ b) = valuesOf name a ++ valuesOf name b := by
  simp [valuesOf]

@[simp] theorem groupValuesOf_append (group name : Text) (a b : List Node) :
    groupValuesOf group name (a ++ b) = groupValuesOf group name a ++ groupValuesOf group name b := by
  simp [groupValuesOf]

theorem property?_eq (node : Node) (group name : Text) :
    node.property? group name = (groupValuesOf group name node.children).head?.join := by
  have hvalues : groupValuesOf group name node.children =
      ((node.children.filter (·.isNamed group)).flatMap fun g => g.children.filter (·.isNamed name)).map
        (·.attribute? valueName) := by
    simp [groupValuesOf, valuesOf, List.map_flatMap]
  rw [hvalues, List.head?_map, Node.property?]
  cases ((node.children.filter (·.isNamed group)).flatMap fun g => g.children.filter (·.isNamed name)).head? <;> rfl

section

variable {node : Node} {l : List Node} {group name : Text}

theorem valuesOf_eq_nil (h : ∀ n ∈ l, n.isNamed name = false) : valuesOf name l = [] := by
  rw [valuesOf, List.filter_eq_nil_iff.2 fun n hn => by simp [h n hn], List.map_nil]

theorem groupValuesOf_eq_nil (h : ∀ n ∈ l, n.isNamed group = false) (name : Text) : groupValuesOf group name l = [] := by
  rw [groupValuesOf, List.filter_eq_nil_iff.2 fun n hn => by simp [h n hn], List.flatMap_nil]

theorem valuesOf_cons_of_isNamed (h : node.isNamed name = true) (l : List Node) :
    valuesOf name (node :: l) = node.attribute? valueName :: valuesOf name l := by
  simp [valuesOf, h]

theorem groupValuesOf_cons_of_isNamed (h : node.isNamed group = true) (name : Text) (l : List Node) :
    groupValuesOf group name (node :: l) = valuesOf name node.children ++ groupValuesOf group name l := by
  simp [groupValuesOf, h]

end

theorem valuesOf_singleton_of_name {name : Text} {node : Node} (h : node.isNamed name = false) :
    valuesOf name [node] = [] := by
  simp [valuesOf, h]

theorem groupValuesOf_singleton_of_name {group name : Text} {node : Node} (h : node.isNamed group = false) :
    groupValuesOf group name [node] = [] := by
  simp [groupValuesOf, h]

/-- Two construct elements that agree in all but their children are read alike at their ends if the values agree. -/
theorem readBefore_congr {tag : Tag} {text : Option Text} {l l' : List Node} {tail : Text}
    (hnary : (element tag text l tail).isNamed "nary" = true →
      groupValuesOf "naryPr" "chr" l' = groupValuesOf "naryPr" "chr" l)
    (hd : (element tag text l tail).isNamed "d" = true →
      groupValuesOf "dPr" "begChr" l' = groupValuesOf "dPr" "begChr" l) :
    readBefore (element tag text l' tail) = readBefore (element tag text l tail) := by
  have hname : ∀ name, (element tag text l' tail).isNamed name = (element tag text l tail).isNamed name :=
    fun _ => rfl
  unfold readBefore
  simp only [hname]
  split
  · rfl
  · split
    · next h => simp only [operatorOf, property?_eq, children_element, hnary h]
    · split
      · next h => simp only [openingOf, property?_eq, children_element, hd h]
      · rfl

theorem readAfter_congr {tag : Tag} {text : Option Text} {l l' : List Node} {tail : Text}
    (hd : (element tag text l tail).isNamed "d" = true →
      groupValuesOf "dPr" "endChr" l' = groupValuesOf "dPr" "endChr" l) :
    readAfter (element tag text l' tail) = readAfter (element tag text l tail) := by
  have hname : (element tag text l' tail).isNamed "d" = (element tag text l tail).isNamed "d" := rfl
  unfold readAfter
  rw [hname]
  split
  · next h => simp only [closingOf, property?_eq, children_element, hd h]
  · rfl

end EquationExport.Omml
