import EncoderTables.Proofs.Encoding.Sameness
import Mathlib.Data.List.Forall2

/-!
# Nodes with the same content

Nodes are looked up by their content. What that means is said here without comparing two nodes:
they are built in the same way, of the same values and texts and of parts with the same content.
Two things are left free. A routine is its actions, so its name does not count, at any depth; and
what is given as a plain value or as a size counts as the number that it stands for. The
comparison of nodes decides exactly this.
-/

namespace EncoderTables.Node

/-- Nodes with the same content: of one kind, with equal values and texts and with parts that
match in the same places. -/
inductive Matches : Node → Node → Prop where
  | bare {value other : Scalar} (equal : value.same other = true) :
      Matches (.bare value) (.bare other)
  | group {items others : List Node} (members : List.Forall₂ Matches items others) :
      Matches (.group items) (.group others)
  | literal (value : Scalar) : Matches (.literal value) (.literal value)
  | literalList {items others : List Node} (members : List.Forall₂ Matches items others) :
      Matches (.literalList items) (.literalList others)
  | param (name : String) : Matches (.param name) (.param name)
  | isSet (name : String) : Matches (.isSet name) (.isSet name)
  | unary (symbol : String) {inner other : Node} (operand : Matches inner other) :
      Matches (.unary symbol inner) (.unary symbol other)
  | binary (symbol : String) {left right other further : Node} (first : Matches left other)
      (second : Matches right further) :
      Matches (.binary symbol left right) (.binary symbol other further)
  | write {value other : Node} (size : Int) (written : Matches value other) :
      Matches (.write value size) (.write other size)
  | packed {values others : List Node} {sizes widths : List Scalar}
      (written : List.Forall₂ Matches values others)
      (equal : sizes.map Scalar.whole? = widths.map Scalar.whole?) :
      Matches (.packed values sizes) (.packed others widths)
  | branch {condition other : Node} {taken otherwise actions others : List Node}
      (tested : Matches condition other) (first : List.Forall₂ Matches taken actions)
      (second : List.Forall₂ Matches otherwise others) :
      Matches (.branch condition taken otherwise) (.branch other actions others)
  | abort (message : String) : Matches (.abort message) (.abort message)
  /-- The names of routines may differ. -/
  | routine (name title : String) {actions others : List Node}
      (members : List.Forall₂ Matches actions others) :
      Matches (.routine name actions) (.routine title others)
  | call {target other : Node} (called : Matches target other) :
      Matches (.call target) (.call other)
  | unordered (order : Scalar) {actions others : List Node}
      (members : List.Forall₂ Matches actions others) :
      Matches (.unordered actions order) (.unordered others order)

/-- Nodes that compare as the same have the same content. -/
theorem matches_of_same :
    (∀ node other, same node other = true → Matches node other) ∧
    (∀ nodes others, sameAll nodes others = true → List.Forall₂ Matches nodes others) := by
  apply same_induction
  case bare => exact fun _ _ => .bare
  case group => exact fun _ _ => .group
  case literal => exact .literal
  case literalList => exact fun _ _ => .literalList
  case param => exact .param
  case isSet => exact .isSet
  case unary => exact fun symbol _ _ => .unary symbol
  case binary => exact fun symbol _ _ _ _ => .binary symbol
  case write => exact fun size _ _ => .write size
  case packed => exact fun _ _ _ _ => .packed
  case branch => exact fun _ _ _ _ _ _ => .branch
  case abort => exact .abort
  case routine => exact fun name title _ _ => .routine name title
  case call => exact fun _ _ => .call
  case unordered => exact fun order _ _ => .unordered order
  case nil => exact .nil
  case cons => exact fun _ _ _ _ => .cons

mutual

/-- Nodes with the same content compare as the same. -/
theorem same_of_matches : (node other : Node) → Matches node other → same node other = true
  | .bare _, _, .bare equal => equal
  | .group items, _, .group members => sameAll_of_matches items _ members
  | .literal _, _, .literal _ => by simp [same]
  | .literalList items, _, .literalList members => sameAll_of_matches items _ members
  | .param _, _, .param _ => by simp [same]
  | .isSet _, _, .isSet _ => by simp [same]
  | .unary _ inner, _, .unary _ operand => by simp [same, same_of_matches inner _ operand]
  | .binary _ left right, _, .binary _ first second => by
    simp [same, same_of_matches left _ first, same_of_matches right _ second]
  | .write value _, _, .write _ written => by simp [same, same_of_matches value _ written]
  | .packed values _, _, .packed written equal => by
    simp [same, sameAll_of_matches values _ written, equal]
  | .branch condition taken otherwise, _, .branch tested first second => by
    simp [same, same_of_matches condition _ tested, sameAll_of_matches taken _ first,
      sameAll_of_matches otherwise _ second]
  | .abort _, _, .abort _ => by simp [same]
  | .routine _ actions, _, .routine _ _ members => sameAll_of_matches actions _ members
  | .call target, _, .call called => same_of_matches target _ called
  | .unordered actions _, _, .unordered _ members => by
    simp [same, sameAll_of_matches actions _ members]

/-- Lists of nodes with the same content compare as the same. -/
theorem sameAll_of_matches : (nodes others : List Node) → List.Forall₂ Matches nodes others →
    sameAll nodes others = true
  | [], _, .nil => rfl
  | node :: rest, _, .cons first others => by
    simp [sameAll, same_of_matches node _ first, sameAll_of_matches rest _ others]

end

/-- Comparing two nodes decides whether they have the same content. -/
theorem beq_iff_matches (node other : Node) : (node == other) = true ↔ Matches node other :=
  ⟨matches_of_same.1 node other, same_of_matches node other⟩

/-- So does comparing two lists of nodes. -/
theorem beq_iff_matchesAll (nodes others : List Node) :
    (nodes == others) = true ↔ List.Forall₂ Matches nodes others := by
  rw [beq_eq_sameAll]
  exact ⟨matches_of_same.2 nodes others, sameAll_of_matches nodes others⟩

instance : DecidableRel Matches :=
  fun node other => decidable_of_iff _ (beq_iff_matches node other)

end EncoderTables.Node
