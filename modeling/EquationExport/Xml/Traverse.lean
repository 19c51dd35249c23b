import EquationExport.Xml.Node

/-!
# Going through a tree

Two ways of changing a whole tree: `rebuild` goes from the leaves up and puts any number of nodes in the
place of each, `prune` goes from the root down and leaves nodes out with all they hold.
-/

namespace EquationExport.Xml

mutual

/-- Puts `f node` in the place of every node, inner nodes first. -/
def Node.rebuild (f : Node → List Node) : Node → List Node
  | .element tag text children tail => f (.element tag text (rebuildAll f children) tail)
  | .comment content tail => f (.comment content tail)
  | .instruction target content tail => f (.instruction target content tail)

/-- Rebuilds several nodes that stand one after the other. -/
def rebuildAll (f : Node → List Node) : List Node → List Node
  | [] => []
  | node :: rest => node.rebuild f ++ rebuildAll f rest

end

mutual

/-- Leaves out what is not to be kept inside a node. -/
def Node.prune (keep : Option Tag → Node → Bool) : Node → Node
  | .element tag text children tail => .element tag text (pruneAll keep (some tag) children) tail
  | .comment content tail => .comment content tail
  | .instruction target content tail => .instruction target content tail

/-- Leaves out the children of `parent` that are not to be kept, and prunes those that are. -/
def pruneAll (keep : Option Tag → Node → Bool) (parent : Option Tag) : List Node → List Node
  | [] => []
  | node :: rest =>
    if keep parent node then node.prune keep :: pruneAll keep parent rest else pruneAll keep parent rest

end

theorem rebuildAll_append (f : Node → List Node) (a b : List Node) :
    rebuildAll f (a ++ b) = rebuildAll f a ++ rebuildAll f b := by
  induction a with
  | nil => rfl
  | cons node a ih => simp [rebuildAll, ih]

theorem pruneAll_append (keep : Option Tag → Node → Bool) (parent : Option Tag) (a b : List Node) :
    pruneAll keep parent (a ++ b) = pruneAll keep parent a ++ pruneAll keep parent b := by
  induction a with
  | nil => rfl
  | cons node a ih => by_cases h : keep parent node <;> simp [pruneAll, h, ih]

end EquationExport.Xml
