import EncoderTables.Generator.Body

/-!
# Cases of bodies

Bodies are written along the recursion of expressions and actions. What holds for each kind of
expression and for nodes that are none, which are refused, holds for all nodes; and so it is with
actions and lists of them. A single unordered write is the action that it consists of.
-/

namespace EncoderTables

namespace Node

/-- Whether a node can stand for a value in a body. -/
def isExpression : Node → Bool
  | literal _ | literalList _ | param _ | isSet _ | unary .. | binary .. => true
  | _ => false

/-- Whether a node can be performed by a body. -/
def isAction : Node → Bool
  | write .. | packed .. | branch .. | abort _ | call _ | unordered .. => true
  | _ => false

/-- Induction over expressions. -/
@[elab_as_elim]
theorem expression_induction {motive : Node → Prop}
    (literal : ∀ value, motive (.literal value))
    (literalList : ∀ items, motive (.literalList items))
    (param : ∀ name, motive (.param name))
    (isSet : ∀ name, motive (.isSet name))
    (unary : ∀ symbol inner, motive inner → motive (.unary symbol inner))
    (binary : ∀ symbol left right, motive left → motive right →
      motive (.binary symbol left right))
    (other : ∀ node, node.isExpression = false → motive node) : ∀ node, motive node
  | .literal value => literal value
  | .literalList items => literalList items
  | .param name => param name
  | .isSet name => isSet name
  | .unary symbol inner => unary symbol inner
    (expression_induction literal literalList param isSet unary binary other inner)
  | .binary symbol left right => binary symbol left right
    (expression_induction literal literalList param isSet unary binary other left)
    (expression_induction literal literalList param isSet unary binary other right)
  | .bare _ | .group _ | .write .. | .packed .. | .branch .. | .abort _ | .routine .. | .call _
  | .unordered .. => other _ rfl

/-- Induction over actions and lists of them. -/
theorem action_induction {one : Node → Prop} {all : List Node → Prop}
    (write : ∀ value size, one (.write value size))
    (packed : ∀ values sizes, one (.packed values sizes))
    (branch : ∀ condition taken otherwise, all taken → all otherwise →
      one (.branch condition taken otherwise))
    (abort : ∀ message, one (.abort message))
    (call : ∀ routine, one (.call routine))
    (single : ∀ write order, one write → one (.unordered [write] order))
    (several : ∀ writes order, writes.length ≠ 1 → one (.unordered writes order))
    (other : ∀ node, node.isAction = false → one node)
    (nil : all [])
    (cons : ∀ node rest, one node → all rest → all (node :: rest)) :
    (∀ node, one node) ∧ ∀ nodes, all nodes := by
  refine Generator.action.mutual_induct one all write packed branch abort call single ?_ ?_ nil cons
  · intro writes order more
    refine several writes order fun count => ?_
    obtain ⟨write, only⟩ := List.length_eq_one_iff.mp count
    exact more write only
  · intro node
    intros
    exact other node (by cases node <;> simp_all [isAction])

end Node

namespace Generator

/-- What is no expression is refused as one. -/
theorem expression_other (site : Site) {node : Node} (other : node.isExpression = false) :
    expression site node = site.refuse (.notExpression node.shown) := by
  cases node <;> first | rfl | cases other

/-- What is no action is refused as one. -/
theorem action_other (site : Site) {node : Node} (other : node.isAction = false) :
    action site node = site.refuse (.notAction node.shown) := by
  cases node <;> first | rfl | cases other

/-- Unordered writes have a function of their own unless there is only one of them. -/
theorem action_unordered (site : Site) {writes : List Node} (several : writes.length ≠ 1)
    (order : Scalar) :
    action site (.unordered writes order) = unorderedText site writes order.plain := by
  rw [action]
  rintro write rfl
  exact several rfl

end Generator

end EncoderTables
