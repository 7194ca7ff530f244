import EncoderTables.Generator.Function
import EncoderTables.Proofs.Encoding.Sameness

/-!
# What an encoding reads

The parameters that the code of an encoding reads: in the body that is written for it,
and in that body together with all shared functions that it leads to. Both are read off
the encoding alone. Nodes that are the same read the same parameters, so a shared
function reads what each of its callers meant.
-/

namespace EncoderTables.Node

/-- The parameters that an expression reads, in the order of its code. -/
def expressionReads : Node → List String
  | .param name | .isSet name => [name]
  | .unary _ inner => expressionReads inner
  | .binary _ left right => expressionReads left ++ expressionReads right
  | _ => []

/-- The parameters that a packed value reads. A value without a width is not written. -/
def packedReads : (values : List Node) → (sizes : List Scalar) → List String
  | value :: values, _ :: sizes => expressionReads value ++ packedReads values sizes
  | _, _ => []

mutual

/-- The parameters that the body of an action reads itself, in the order of its code:
routines and unordered writes are read in functions of their own, but the order of
several unordered writes is selected here. -/
def bodyReads : Node → List String
  | .write value _ => expressionReads value
  | .packed values sizes => packedReads values sizes
  | .branch condition taken otherwise =>
    expressionReads condition ++ bodyReadsAll taken ++ bodyReadsAll otherwise
  | .unordered writes order =>
    if writes.length = 1 then bodyReadsAll writes else [order.plain]
  | _ => []

/-- The parameters that the body of several actions reads itself. -/
def bodyReadsAll : List Node → List String
  | [] => []
  | node :: rest => bodyReads node ++ bodyReadsAll rest

end

mutual

/-- The parameters that an action reads anywhere: in its body, in the routines that it
calls and in its unordered writes. A single unordered write has no order to select. -/
def reads : Node → List String
  | .write value _ => expressionReads value
  | .packed values sizes => packedReads values sizes
  | .branch condition taken otherwise =>
    expressionReads condition ++ readsAll taken ++ readsAll otherwise
  | .call (.routine _ members) => readsAll members
  | .unordered writes order =>
    readsAll writes ++ (if writes.length = 1 then [] else [order.plain])
  | _ => []

/-- The parameters that several actions read anywhere. -/
def readsAll : List Node → List String
  | [] => []
  | node :: rest => reads node ++ readsAll rest

end

/-- Values packed with widths that count as the same numbers, when the first values read
the same and so do the others. -/
theorem packedReads_cons_congr {value other : Node} {values others : List Node}
    (first : expressionReads value = expressionReads other)
    (rest : ∀ sizes widths, sizes.map Scalar.whole? = widths.map Scalar.whole? →
      packedReads values sizes = packedReads others widths)
    (sizes widths : List Scalar) (equal : sizes.map Scalar.whole? = widths.map Scalar.whole?) :
    packedReads (value :: values) sizes = packedReads (other :: others) widths := by
  cases sizes with
  | nil =>
    cases widths with
    | nil => rfl
    | cons _ _ => simp at equal
  | cons size sizes =>
    cases widths with
    | nil => simp at equal
    | cons width widths =>
      have remaining := (List.cons.inj equal).2
      simp only [packedReads, first, rest sizes widths remaining]

/-- What an expression, an action and a call read depends on the node up to sameness
only. Packed values are compared together with their widths, and lists of unordered
writes by their length as well, which decides whether an order is read. -/
theorem reads_of_same :
    (∀ left right, same left right = true →
      expressionReads left = expressionReads right ∧ reads left = reads right ∧
        reads (.call left) = reads (.call right)) ∧
    (∀ left right, sameAll left right = true →
      left.length = right.length ∧ readsAll left = readsAll right ∧
        ∀ sizes widths, sizes.map Scalar.whole? = widths.map Scalar.whole? →
          packedReads left sizes = packedReads right widths) := by
  apply same_induction
  case bare | group | literal | literalList | param | isSet | abort =>
    intros
    exact ⟨rfl, rfl, rfl⟩
  case unary =>
    intro symbol a b part
    exact ⟨part.1, rfl, rfl⟩
  case binary =>
    intro symbol a b c d first second
    exact ⟨by simp only [expressionReads, first.1, second.1], rfl, rfl⟩
  case write =>
    intro size a b part
    exact ⟨rfl, part.1, rfl⟩
  case packed =>
    intro as ms bs ns members widths
    exact ⟨rfl, members.2.2 ms ns widths, rfl⟩
  case branch =>
    intro a b cs ds es fs condition taken otherwise
    exact ⟨rfl, by simp only [reads, condition.1, taken.2.1, otherwise.2.1], rfl⟩
  case routine =>
    intro name other as bs members
    exact ⟨rfl, rfl, members.2.1⟩
  case call =>
    intro a b part
    exact ⟨rfl, part.2.2, rfl⟩
  case unordered =>
    intro order as bs members
    exact ⟨rfl, by simp only [reads, members.1, members.2.1], rfl⟩
  case nil => exact ⟨rfl, rfl, fun sizes widths _ => by simp [packedReads]⟩
  case cons =>
    intro a b as bs first rest
    refine ⟨by simp [rest.1], by simp [readsAll, first.2.1, rest.2.1], ?_⟩
    exact packedReads_cons_congr first.1 rest.2.2

/-- Calls of routines that are the same read the same parameters. -/
theorem call_reads_eq_of_same {left right : Node} (equal : same left right = true) :
    reads (.call left) = reads (.call right) := (reads_of_same.1 left right equal).2.2

/-- Lists of nodes that are the same read the same parameters. -/
theorem readsAll_eq_of_sameAll {left right : List Node} (equal : sameAll left right = true) :
    readsAll left = readsAll right := (reads_of_same.2 left right equal).2.1

end EncoderTables.Node
