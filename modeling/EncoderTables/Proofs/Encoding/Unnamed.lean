import EncoderTables.Proofs.Encoding.Sameness

/-!
# Nodes without the names of routines

The name of a routine documents the generated code and nothing else. Here it is taken away,
at any depth of a node. What remains is the same node: it has the same text, and it is looked
up as the same key.
-/

namespace EncoderTables.Node

mutual

/-- A node in which no routine has a name. -/
def unnamed : Node → Node
  | .group items => .group (unnamedAll items)
  | .literalList items => .literalList (unnamedAll items)
  | .unary symbol inner => .unary symbol (unnamed inner)
  | .binary symbol left right => .binary symbol (unnamed left) (unnamed right)
  | .write value size => .write (unnamed value) size
  | .packed values sizes => .packed (unnamedAll values) sizes
  | .branch condition taken otherwise =>
    .branch (unnamed condition) (unnamedAll taken) (unnamedAll otherwise)
  | .routine _ members => .routine "" (unnamedAll members)
  | .call target => .call (unnamed target)
  | .unordered writes order => .unordered (unnamedAll writes) order
  | .bare value => .bare value
  | .literal value => .literal value
  | .param name => .param name
  | .isSet name => .isSet name
  | .abort message => .abort message

/-- Nodes in which no routine has a name. -/
def unnamedAll : List Node → List Node
  | [] => []
  | node :: rest => unnamed node :: unnamedAll rest

end

/-- Taking names away leaves as many nodes. -/
@[simp]
theorem length_unnamedAll (nodes : List Node) : (unnamedAll nodes).length = nodes.length := by
  induction nodes with
  | nil => rfl
  | cons node rest inductionHypothesis => simp [unnamedAll, inductionHypothesis]

/-- Taking names away leaves no nodes only of none. -/
@[simp]
theorem isEmpty_unnamedAll (nodes : List Node) : (unnamedAll nodes).isEmpty = nodes.isEmpty := by
  cases nodes <;> rfl

mutual

/-- A node is the same as without the names of routines. -/
theorem same_own_unnamed : (node : Node) → same node (unnamed node) = true
  | .bare value => value.same_refl
  | .group items => sameAll_own_unnamed items
  | .literal _ => by simp [same, unnamed]
  | .literalList items => sameAll_own_unnamed items
  | .param _ => by simp [same, unnamed]
  | .isSet _ => by simp [same, unnamed]
  | .unary _ inner => by simp [same, unnamed, same_own_unnamed inner]
  | .binary _ left right => by
    simp [same, unnamed, same_own_unnamed left, same_own_unnamed right]
  | .write value _ => by simp [same, unnamed, same_own_unnamed value]
  | .packed values _ => by simp [same, unnamed, sameAll_own_unnamed values]
  | .branch condition taken otherwise => by
    simp [same, unnamed, same_own_unnamed condition, sameAll_own_unnamed taken,
      sameAll_own_unnamed otherwise]
  | .abort _ => by simp [same, unnamed]
  | .routine _ members => sameAll_own_unnamed members
  | .call target => same_own_unnamed target
  | .unordered writes _ => by simp [same, unnamed, sameAll_own_unnamed writes]

/-- Nodes are the same as without the names of routines. -/
theorem sameAll_own_unnamed : (nodes : List Node) → sameAll nodes (unnamedAll nodes) = true
  | [] => rfl
  | node :: rest => by
    simp [sameAll, unnamedAll, same_own_unnamed node, sameAll_own_unnamed rest]

end

/-- Without names the same nodes are the same. -/
theorem beq_unnamed (left right : Node) : (left.unnamed == right.unnamed) = (left == right) := by
  have first : (left == left.unnamed) = true := same_own_unnamed left
  have second : (right == right.unnamed) = true := same_own_unnamed right
  rw [BEq.congr_left first, BEq.congr_right second]

/-- Without names the same lists of nodes are the same. -/
theorem beq_unnamedAll (left right : List Node) :
    (unnamedAll left == unnamedAll right) = (left == right) := by
  have own (nodes : List Node) : (nodes == unnamedAll nodes) = true :=
    (beq_eq_sameAll ..).trans (sameAll_own_unnamed nodes)
  rw [BEq.congr_left (own left), BEq.congr_right (own right)]

mutual

/-- The text of a node does not show the names of routines. -/
@[simp]
theorem shown_unnamed : (node : Node) → (unnamed node).shown = node.shown
  | .bare _ | .literal _ | .param _ | .isSet _ | .abort _ => rfl
  | .group items => by simp [shown, unnamed, shownAll_unnamedAll items]
  | .literalList items => by simp [shown, unnamed, shownAll_unnamedAll items]
  | .unary _ inner => by simp [shown, unnamed, shown_unnamed inner]
  | .binary _ left right => by simp [shown, unnamed, shown_unnamed left, shown_unnamed right]
  | .write value _ => by simp [shown, unnamed, shown_unnamed value]
  | .packed values _ => by simp [shown, unnamed, shownAll_unnamedAll values]
  | .branch condition taken otherwise => by
    simp [shown, unnamed, shown_unnamed condition, shownAll_unnamedAll taken,
      shownAll_unnamedAll otherwise]
  | .routine _ members => by simp [shown, unnamed, shownAll_unnamedAll members]
  | .call target => by simp [shown, unnamed, shown_unnamed target]
  | .unordered writes _ => by simp [shown, unnamed, shownAll_unnamedAll writes]

/-- The texts of nodes do not show the names of routines. -/
@[simp]
theorem shownAll_unnamedAll : (nodes : List Node) → shownAll (unnamedAll nodes) = shownAll nodes
  | [] => rfl
  | node :: rest => by simp [shownAll, unnamedAll, shown_unnamed node, shownAll_unnamedAll rest]

end

mutual

/-- A node can be looked up as well without names. -/
@[simp]
theorem isFixed_unnamed : (node : Node) → (unnamed node).isFixed = node.isFixed
  | .bare _ | .literal _ | .param _ | .isSet _ | .abort _ => rfl
  | .group _ | .literalList _ => rfl
  | .unary _ inner => by simp [isFixed, unnamed, isFixed_unnamed inner]
  | .binary _ left right => by
    simp [isFixed, unnamed, isFixed_unnamed left, isFixed_unnamed right]
  | .write value _ => by simp [isFixed, unnamed, isFixed_unnamed value]
  | .packed values _ => by simp [isFixed, unnamed, areFixed_unnamedAll values]
  | .branch condition taken otherwise => by
    simp [isFixed, unnamed, isFixed_unnamed condition, areFixed_unnamedAll taken,
      areFixed_unnamedAll otherwise]
  | .routine _ members => by simp [isFixed, unnamed, areFixed_unnamedAll members]
  | .call target => by simp [isFixed, unnamed, isFixed_unnamed target]
  | .unordered writes _ => by simp [isFixed, unnamed, areFixed_unnamedAll writes]

/-- Nodes can be looked up as well without names. -/
@[simp]
theorem areFixed_unnamedAll : (nodes : List Node) → areFixed (unnamedAll nodes) = areFixed nodes
  | [] => rfl
  | node :: rest => by simp [areFixed, unnamedAll, isFixed_unnamed node, areFixed_unnamedAll rest]

end

end EncoderTables.Node
