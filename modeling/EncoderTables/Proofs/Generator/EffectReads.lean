import Mathlib.Algebra.Order.BigOperators.Group.List
import Mathlib.Algebra.Order.Ring.Nat
import EncoderTables.Proofs.Generator.Effects

/-!
# What effects say about an encoding

The effects of actions carry all that is read off the actions themselves: the parameters
that they read anywhere, those that their own body reads, and the number of calls in them.
So what an emission learns from effects is what the encoding says.
-/

namespace EncoderTables.Generator

open Node

namespace Effect

/-- The parameters that an effect stands for, in shared functions as well. -/
def reads : Effect → List String
  | .use name => [name]
  | .ordering writes => readsAll writes
  | .routine target => Node.reads (.call target)
  | .impose .. | .fail => []

/-- The parameter that the body itself reads by an effect. -/
def used? : Effect → Option String
  | .use name => some name
  | _ => none

/-- The domain that an effect imposes on a parameter. -/
def imposed? : Effect → Option (String × Domain)
  | .impose order items => some (order, orders items)
  | _ => none

/-- The number of calls that an effect leads to. -/
def calls : Effect → Nat
  | .routine target => 1 + callCount target
  | _ => 0

end Effect

/-- Uses stand for the parameters that are used. -/
@[simp]
theorem flatMap_uses (names : List String) : (uses names).flatMap Effect.reads = names := by
  induction names with
  | nil => rfl
  | cons name rest inductionHypothesis =>
    simpa [uses, Effect.reads] using inductionHypothesis

/-- Uses are read by the body itself. -/
@[simp]
theorem filterMap_uses (names : List String) : (uses names).filterMap Effect.used? = names := by
  induction names with
  | nil => rfl
  | cons name rest inductionHypothesis =>
    simpa [uses, Effect.used?] using inductionHypothesis

/-- Uses lead to no calls. -/
@[simp]
theorem calls_uses (names : List String) : ((uses names).map Effect.calls).sum = 0 := by
  induction names with
  | nil => rfl
  | cons name rest inductionHypothesis =>
    simpa [uses, Effect.calls] using inductionHypothesis

mutual

/-- The effects of an action stand for all parameters that it reads. -/
theorem flatMap_effects : (node : Node) → (effects node).flatMap Effect.reads = reads node
  | .write .. | .packed .. => by simp [effects, reads]
  | .branch _ taken otherwise => by
    simp [effects, reads, flatMap_effectsAll taken, flatMap_effectsAll otherwise]
  | .call _ => by simp [effects, Effect.reads]
  | .unordered writes _ => by
    by_cases single : writes.length = 1
    · simp [effects, reads, single, flatMap_effectsAll writes]
    · simp [effects, reads, single, Effect.reads]
  | .bare _ | .group _ | .literal _ | .literalList _ | .param _ | .isSet _ | .unary .. |
    .binary .. | .abort _ | .routine .. => by simp [effects, reads, Effect.reads]

/-- The effects of several actions stand for all parameters that they read. -/
theorem flatMap_effectsAll :
    (nodes : List Node) → (effectsAll nodes).flatMap Effect.reads = readsAll nodes
  | [] => rfl
  | node :: rest => by simp [effectsAll, readsAll, flatMap_effects node, flatMap_effectsAll rest]

end

mutual

/-- The body of an action uses the parameters that it reads itself. -/
theorem filterMap_effects : (node : Node) → (effects node).filterMap Effect.used? = bodyReads node
  | .write .. | .packed .. => by simp [effects, bodyReads]
  | .branch _ taken otherwise => by
    simp [effects, bodyReads, filterMap_effectsAll taken, filterMap_effectsAll otherwise]
  | .unordered writes _ => by
    by_cases single : writes.length = 1
    · simp [effects, bodyReads, single, filterMap_effectsAll writes]
    · simp only [effects, bodyReads, single, if_false]
      rfl
  | .bare _ | .group _ | .literal _ | .literalList _ | .param _ | .isSet _ | .unary .. |
    .binary .. | .abort _ | .routine .. | .call _ => by
    simp [effects, bodyReads, Effect.used?]

/-- The body of several actions uses the parameters that it reads itself. -/
theorem filterMap_effectsAll :
    (nodes : List Node) → (effectsAll nodes).filterMap Effect.used? = bodyReadsAll nodes
  | [] => rfl
  | node :: rest => by
    simp [effectsAll, bodyReadsAll, filterMap_effects node, filterMap_effectsAll rest]

end

mutual

/-- Each routine that is requested for an action is called in it. -/
theorem calls_effects : (node : Node) → ((effects node).map Effect.calls).sum ≤ callCount node
  | .write .. | .packed .. => by simp [effects]
  | .branch _ taken otherwise => by
    have onTaken := calls_effectsAll taken
    have onOtherwise := calls_effectsAll otherwise
    simp only [effects, List.map_append, List.sum_append, calls_uses, callCount]
    omega
  | .call _ => by simp [effects, Effect.calls, callCount]
  | .unordered writes _ => by
    by_cases single : writes.length = 1
    · simpa [effects, single, callCount] using calls_effectsAll writes
    · simp [effects, single, Effect.calls]
  | .bare _ | .group _ | .literal _ | .literalList _ | .param _ | .isSet _ | .unary .. |
    .binary .. | .abort _ | .routine .. => by simp [effects, Effect.calls]

/-- Each routine that is requested for several actions is called in them. -/
theorem calls_effectsAll :
    (nodes : List Node) → ((effectsAll nodes).map Effect.calls).sum ≤ callCounts nodes
  | [] => by simp [effectsAll]
  | node :: rest => by
    have first := calls_effects node
    have others := calls_effectsAll rest
    simp only [effectsAll, List.map_append, List.sum_append, callCounts]
    omega

end

/-- A parameter is read by actions when one of their effects stands for it. -/
theorem mem_readsAll_iff (nodes : List Node) (name : String) :
    name ∈ readsAll nodes ↔ ∃ effect ∈ effectsAll nodes, name ∈ effect.reads := by
  rw [← flatMap_effectsAll, List.mem_flatMap]

/-- A routine that is requested for actions contains fewer calls than they do. -/
theorem callCount_lt {target : Node} {nodes : List Node}
    (requested : Effect.routine target ∈ effectsAll nodes) :
    callCount target < callCounts nodes := by
  have bound := calls_effectsAll nodes
  have part := List.le_sum_of_mem (List.mem_map_of_mem (f := Effect.calls) requested)
  simp only [Effect.calls] at part
  omega

/-- Nodes that are the same contain the same number of calls. -/
theorem callCount_eq_of_same :
    (∀ left right, same left right = true → callCount left = callCount right) ∧
    (∀ left right, sameAll left right = true → callCounts left = callCounts right) := by
  apply same_induction <;> intros <;> simp_all [callCount, callCounts]

end EncoderTables.Generator
