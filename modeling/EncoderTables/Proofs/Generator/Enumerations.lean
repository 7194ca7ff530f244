import EncoderTables.Generator.Tables
import EncoderTables.Proofs.Steps
import Mathlib.Data.List.Induction

/-!
# Enumerations of symbols

An enumeration keeps each name once, in the place of its first use. Symbols whose
constants are distinct are therefore listed one after the other, and the enumerator that
counts them stands behind the last.
-/

namespace EncoderTables

namespace Code.Enumeration

/-- A new name is added at the end. -/
theorem setValue_of_not_mem {name : String} {value : Scalar} {values : List (String × Scalar)}
    (new : name ∉ values.map (·.1)) : setValue name value values = values ++ [(name, value)] := by
  induction values with
  | nil => rfl
  | cons entry rest inductionHypothesis =>
    obtain ⟨first, old⟩ := entry
    simp only [List.map_cons, List.mem_cons, not_or] at new
    simp only [setValue, if_neg (Ne.symm new.1), inductionHypothesis new.2, List.cons_append]

/-- Setting a value leaves an enumeration that is not empty. -/
theorem setValue_ne_nil (name : String) (value : Scalar) (values : List (String × Scalar)) :
    setValue name value values ≠ [] := by
  cases values with
  | nil => simp [setValue]
  | cons entry rest =>
    obtain ⟨first, old⟩ := entry
    simp only [setValue]
    split <;> simp

/-- The last enumerator is added last. -/
theorem ofValues_append (comment : Comment) (name : String) (values : List (String × Scalar))
    (last : String × Scalar) (isTypedef : Bool) :
    ofValues comment name (values ++ [last]) isTypedef =
      (ofValues comment name values isTypedef).withValue last.1 last.2 := by
  simp [ofValues]

/-- Enumerators leave the name of the enumeration. -/
theorem name_ofValues (comment : Comment) (name : String) (values : List (String × Scalar))
    (isTypedef : Bool) : (ofValues comment name values isTypedef).name = name := by
  induction values using List.reverseRecOn with
  | nil => rfl
  | append_singleton values last inductionHypothesis =>
    rw [ofValues_append]
    exact inductionHypothesis

/-- An enumeration of distinct names lists them in their order. -/
theorem values_ofValues (comment : Comment) (name : String) {values : List (String × Scalar)}
    (isTypedef : Bool) (distinct : (values.map (·.1)).Nodup) :
    (ofValues comment name values isTypedef).values = values := by
  induction values using List.reverseRecOn with
  | nil => rfl
  | append_singleton values last inductionHypothesis =>
    rw [List.map_append, List.nodup_append] at distinct
    obtain ⟨former, -, apart⟩ := distinct
    have new : last.1 ∉ values.map (·.1) := by
      intro member
      exact apart last.1 member last.1 (by simp) rfl
    rw [ofValues_append, withValue, inductionHypothesis former]
    exact setValue_of_not_mem new

/-- An enumeration of some names has enumerators and can be declared. -/
theorem declaration_ofValues (comment : Comment) (name : String)
    {values : List (String × Scalar)} (isTypedef : Bool) (nonempty : values ≠ []) :
    ∃ chunks, (ofValues comment name values isTypedef).declaration = .ok chunks := by
  obtain ⟨former, last, rfl⟩ := List.eq_nil_or_concat values |>.resolve_left nonempty
  rw [List.concat_eq_append, ofValues_append]
  have listed : ((ofValues comment name former isTypedef).withValue last.1 last.2).values.isEmpty
      = false := by
    rw [List.isEmpty_eq_false_iff]
    exact setValue_ne_nil _ _ _
  unfold declaration
  rw [listed]
  exact ⟨_, rfl⟩

end Code.Enumeration

namespace Generator

/-- The constants of symbols without values. -/
def symbolConstants (group : Option String) (symbols : List String) : List (String × Scalar) :=
  symbols.map fun symbol => (Naming.constant (Naming.archPath group) symbol, .text "")

/-- Symbols without values are listed as they are. -/
theorem enumerators_none (group : Option String) (symbols : List String) :
    enumerators group symbols none = .ok (symbolConstants group symbols) := by
  induction symbols with
  | nil => rfl
  | cons symbol rest inductionHypothesis =>
    rw [enumerators, inductionHypothesis]
    rfl

/-- The enumeration of symbols and their number. -/
def countedEnumeration (what group : String) (symbols : List String) (total : String) :
    Code.Enumeration :=
  .ofValues .none (Naming.enumType what)
    (symbolConstants (some group) symbols ++ [(Naming.count total, .text "")]) true

/-- Counted symbols can always be enumerated. -/
theorem symbolEnumeration_counted (what group : String) (symbols : List String)
    (total : String) :
    symbolEnumeration what symbols (some group) (some total) none =
      .ok (.enumeration (countedEnumeration what group symbols total)) := by
  rw [symbolEnumeration, enumerators_none]
  rfl

/-- The constants of the instruction flags, with their values. -/
def flagConstants : List (String × Scalar) :=
  (Arch.instructionFlags.map Naming.instructionFlag).zip flagValues

/-- Each instruction flag has a value. -/
theorem symbolEnumeration_flags :
    symbolEnumeration "inst_flag" Arch.instructionFlags (some "inst_flag") none
        (some flagValues) =
      .ok (.enumeration (.ofValues .none (Naming.enumType "inst_flag") flagConstants true)) :=
  rfl

/-- The enumerations behind the one of the instructions. -/
def furtherEnumerations (set : InstructionSet) : List Code.Enumeration :=
  [countedEnumeration "reg_id" "reg" (Arch.registerNames ++ ["none"]) "regs",
   countedEnumeration "reg_type" "reg_type" (Arch.RegisterType.all.map (·.name)) "reg_types",
   countedEnumeration "operand_type" "operand_type" (Operand.Kind.all.map (·.name))
     "operand_types",
   countedEnumeration "operand_size" "operand_size" (Arch.operandSizes.map toString)
     "operand_sizes",
   .ofValues .none (Naming.enumType "inst_flag") flagConstants true,
   countedEnumeration "feature" "feature" Arch.features "features",
   countedEnumeration "exception" "exception" Arch.exceptions "exceptions",
   countedEnumeration "param_id" "param" Arch.parameters "params",
   countedEnumeration "basic_param_id" "basic_param" (Arch.basicParameters ++ ["none"])
     "basic_params",
   countedEnumeration "param_type" "param_type" Arch.valueTypes "param_types",
   countedEnumeration "bit_mask" "bit_mask" (bitMaskNames set) "bit_masks"]

/-- The enumeration of the instructions of a set. -/
def instructionEnumeration (set : InstructionSet) : Code.Enumeration :=
  countedEnumeration "inst_id" "inst" (set.instructions.map (·.name)) "insts"

/-- The enumerations can always be produced; that of the instructions is the first. -/
theorem enumerations_eq (set : InstructionSet) :
    enumerations set =
      .ok ((instructionEnumeration set :: furtherEnumerations set).map
        Code.Element.enumeration) := by
  simp only [enumerations, symbolEnumeration_counted, symbolEnumeration_flags]
  rfl

/-- Each of the enumerations can be declared. -/
theorem declaration_enumeration (set : InstructionSet) {enumeration : Code.Enumeration}
    (member : enumeration ∈ instructionEnumeration set :: furtherEnumerations set) :
    ∃ chunks, enumeration.declaration = .ok chunks := by
  simp only [furtherEnumerations, instructionEnumeration, List.mem_cons, List.not_mem_nil,
    or_false] at member
  rcases member with rfl | rfl | rfl | rfl | rfl | rfl | rfl | rfl | rfl | rfl | rfl | rfl
  all_goals
    refine Code.Enumeration.declaration_ofValues _ _ _ ?_
    first
    | exact List.append_ne_nil_of_right_ne_nil _ (List.cons_ne_nil _ _)
    | exact List.cons_ne_nil _ _

end Generator

end EncoderTables
