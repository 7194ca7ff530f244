import EncoderTables.Proofs.Generator.OperandTables
import EncoderTables.Proofs.Generator.ParameterTables
import EncoderTables.Proofs.Generator.Routines
import Mathlib.Data.Nat.Factorial.Basic

/-!
# Members of the instruction file

The file of the instruction tables is a sequence of members, each of which defines something or
declares functions. A member refers to others: code calls shared functions, their cases are
selected by tables of orders, and the rows of tables name functions, further tables and domains.
A reference is resolved when the member that it needs stands before the one that contains it.

The code of functions is text in which the numbers of shared functions only occur in calls. So
what the code refers to is read off its actions: the code is the same under all numbers for
which the same functions are called.
-/

namespace EncoderTables.Generator

/-- The name of the shared function that an effect calls. -/
def Effect.call? (numbers : Numbers) : Effect → Option String
  | .routine target => some (Naming.routineFunction (toString (numbers.routine target)))
  | .ordering writes => some (Naming.orderingFunction (toString (numbers.ordering writes)))
  | .use _ | .impose .. | .fail => none

/-- The names of the shared functions that the code of actions calls, in its order. -/
def callsOf (numbers : Numbers) (nodes : List Node) : List String :=
  (effectsAll nodes).filterMap (Effect.call? numbers)

section Code

variable {numbers other : Numbers}

/-- Two ways to number shared functions give the same names to what certain effects call. -/
def CallAlike (numbers other : Numbers) (effects : List Effect) : Prop :=
  ∀ effect ∈ effects, effect.call? numbers = effect.call? other

/-- Effects call alike when the first ones do and the others do. -/
theorem CallAlike.parts {first second : List Effect}
    (alike : CallAlike numbers other (first ++ second)) :
    CallAlike numbers other first ∧ CallAlike numbers other second :=
  ⟨fun effect member => alike effect (List.mem_append_left _ member),
    fun effect member => alike effect (List.mem_append_right _ member)⟩

/-- The call of unordered writes depends on the name of their function. -/
theorem unorderedCode_eq (owner : Option String) {writes : List Node} (order : String)
    (alike : (Effect.ordering writes).call? numbers = (Effect.ordering writes).call? other) :
    unorderedCode numbers owner writes order = unorderedCode other owner writes order := by
  have named := Option.some.inj alike
  simp only [unorderedCode, Numbers.ofOrdering]
  cases Node.areFixed writes with
  | false => rfl
  | true => simp only [Bool.not_true, Bool.false_eq_true, if_false, bind, Except.bind, named]

mutual

/-- The code of an action depends on the numbers of shared functions only through the names of
those that it calls. -/
theorem actionCode_eq (owner : Option String) : (node : Node) →
    CallAlike numbers other (effects node) →
    actionCode numbers owner node = actionCode other owner node
  | .branch condition taken otherwise, alike => by
    obtain ⟨front, second⟩ := CallAlike.parts alike
    obtain ⟨-, first⟩ := CallAlike.parts front
    simp only [actionCode, codeAll_eq owner taken first, codeAll_eq owner otherwise second]
  | .call target, alike => by
    have named := Option.some.inj (alike (.routine target) (by simp [effects]))
    simp only [actionCode, Numbers.ofRoutine]
    cases target.isFixed with
    | false => rfl
    | true => simp only [Bool.not_true, Bool.false_eq_true, if_false, bind, Except.bind, named]
  | .unordered [] order, alike =>
    unorderedCode_eq owner order.plain (alike (.ordering []) (by simp [effects]))
  | .unordered [single] order, alike => by
    have own : effects (.unordered [single] order) = effects single := by
      simp [effects, effectsAll]
    simp only [actionCode]
    exact actionCode_eq owner single (own ▸ alike)
  | .unordered (first :: second :: rest) order, alike =>
    unorderedCode_eq owner order.plain
      (alike (.ordering (first :: second :: rest)) (by simp [effects]))
  | .write _ _, _ | .packed _ _, _ | .abort _, _ | .bare _, _ | .literal _, _
  | .literalList _, _ | .param _, _ | .isSet _, _ | .group _, _ | .unary _ _, _
  | .binary _ _ _, _ | .routine _ _, _ => by simp only [actionCode]

/-- So does the code of several actions. -/
theorem codeAll_eq (owner : Option String) : (nodes : List Node) →
    CallAlike numbers other (effectsAll nodes) →
    codeAll numbers owner nodes = codeAll other owner nodes
  | [], _ => rfl
  | node :: rest, alike => by
    obtain ⟨first, others⟩ := CallAlike.parts alike
    simp only [codeAll, actionCode_eq owner node first, codeAll_eq owner rest others]

end

end Code

/-- A function that a header declares under a name, with parameters of its own. -/
def Declares (function : Code.Element) (name : String) : Prop :=
  ∃ (comment : Code.Comment) (parameters : List String), function.declaration =
    .ok (comment.chunks ++
      [.list (Code.Element.prototype name .bool true false parameters ++ ";\n")])

/-- A member of the file of the instruction tables, by what it defines or declares. -/
inductive Member where
  /-- The table of all orders of a number of items. -/
  | orders (items : Nat)
  /-- The prototypes of the shared functions. -/
  | prototypes (functions : List Code.Element)
  /-- The function of unordered writes that have a number. -/
  | ordering (writes : List Node) (id : Nat)
  /-- The function of a routine that has a number. -/
  | routine (target : Node) (id : Nat)
  | encoder (instruction : Instruction)
  | mnemonic (instruction : Instruction)
  /-- The operand table of an encoded instruction. -/
  | operands (entry : Instruction × Emitter)
  | domain (domain : Domain)
  | domainCount (size : Nat)
  /-- The parameter table of an encoded instruction. -/
  | parameters (entry : Instruction × Emitter)
  /-- The table of encoded instructions. -/
  | instructions (entries : List (Instruction × Emitter))
  /-- The public reference to the table of encoded instructions. -/
  | instructionsReference (entries : List (Instruction × Emitter))
  /-- The exported stub of an accessor. -/
  | stub (function : Code.Element)

/-- The name that a member defines. -/
def Member.name? : Member → Option String
  | .orders items => some (Naming.permutationTable (toString items))
  | .prototypes _ => none
  | .ordering _ id => some (Naming.orderingFunction (toString id))
  | .routine _ id => some (Naming.routineFunction (toString id))
  | .encoder instruction => some (Naming.encoder instruction.name)
  | .mnemonic instruction => some (Naming.mnemonic instruction.name)
  | .operands entry => some (Naming.operandTable entry.1.name)
  | .domain allowed => some allowed.name
  | .domainCount _ => some "evoasm_n_domains"
  | .parameters entry => some (Naming.parameterTable entry.1.name)
  | .instructions _ => some Naming.staticInstructionTable
  | .instructionsReference _ => some Naming.instructionTable
  | .stub function => function.name?

/-- What a member needs of an earlier one. -/
inductive Reference where
  /-- The prototype of a shared function that is called by its name. -/
  | call (function : String)
  /-- The definition under a name, which is a certain member. -/
  | definition (name : String) (member : Member)

/-- The member that a reference needs is there, and has the name that it is referred to by. -/
def Reference.ResolvedBy (earlier : List Member) : Reference → Prop
  | .call name => ∃ functions, Member.prototypes functions ∈ earlier ∧
      ∃ function ∈ functions, Declares function name
  | .definition name member => member ∈ earlier ∧ member.name? = some name

/-- A reference stays resolved behind further members. -/
theorem Reference.ResolvedBy.mono {earlier members : List Member} {reference : Reference}
    (resolved : reference.ResolvedBy earlier) (kept : earlier ⊆ members) :
    reference.ResolvedBy members := by
  cases reference with
  | call name =>
    obtain ⟨functions, member, declared⟩ := resolved
    exact ⟨functions, kept member, declared⟩
  | definition name member => exact ⟨kept resolved.1, resolved.2⟩

/-- What the row of an encoded instruction refers to. Tables without rows are not named. -/
def rowReferences (entry : Instruction × Emitter) : List Reference :=
  (if entry.2.parameters.isEmpty then []
    else [.definition (Naming.parameterTable entry.1.name) (.parameters entry)]) ++
  [.definition (Naming.encoder entry.1.name) (.encoder entry.1)] ++
  (if entry.1.operands.isEmpty then []
    else [.definition (Naming.operandTable entry.1.name) (.operands entry)]) ++
  [.definition (Naming.mnemonic entry.1.name) (.mnemonic entry.1)]

/-- The fields of the row of an encoded instruction name its tables, unless they have no rows,
its function and its mnemonic. -/
structure NamesTables (entry : Instruction × Emitter) (fields : List String) : Prop where
  parameters : fields[6]? = some (if entry.2.parameters.isEmpty then "NULL"
    else "(evoasm_x64_param_t *) " ++ ("params_" ++ entry.1.name))
  encoder : fields[7]? = some ("(evoasm_x64_inst_enc_func_t) " ++ ("evoasm_x64_" ++ entry.1.name))
  operands : fields[8]? = some (if entry.1.operands.isEmpty then "NULL"
    else "(evoasm_x64_operand_t *) " ++ ("operands_" ++ entry.1.name))
  mnemonic : fields[9]? = some ("(char *) " ++ ("name_" ++ entry.1.name))

/-- A function looks the order of its writes up in a table. -/
def LooksUp (table : String) (function : Code.Element) : Prop :=
  ∃ name parameters before behind, function =
    .function ⟨"", ""⟩ name .bool parameters
      (.plain (before ++ "switch(" ++ table ++ "[order][i]) \x7b\n" ++ behind)) true false

namespace Member

/-- An element is what a member says, under certain settings and numbers of shared functions. -/
def Is (settings : Settings) (numbers : Numbers) : Member → Code.Element → Prop
  | .orders items, element => ∃ rows : List (List Nat), rows.length = items.factorial ∧
      (∀ row ∈ rows, row.length = items) ∧
      element = .value {
        comment := ⟨"", ""⟩
        name := "permutations" ++ toString items
        type := ⟨"uint8_t", ["stdint.h"], true, 0⟩
        isPrivate := true
        value := "\x7b\n" ++ "\n".intercalate (rows.map fun row =>
          "\x7b" ++ ", ".intercalate (row.map toString) ++ "\x7d,") ++ "\n\x7d"
        dimensions := [.number items.factorial, .number items] }
  | .prototypes functions, element => ∃ text,
      Code.render functions settings.indent settings.width false = .ok text ∧
      element = .plain text
  | .ordering writes id, element => IsOrdering numbers writes id element ∧
      LooksUp ("permutations" ++ toString writes.length) element
  | .routine target id, element => IsRoutine numbers target id element
  | .encoder instruction, element => IsInstruction numbers instruction element
  | .mnemonic instruction, element => element = .value {
      comment := ⟨"", ""⟩
      name := "name_" ++ instruction.name
      type := ⟨"char", [], true, 0⟩
      isPrivate := true
      value := "\"" ++ instruction.mnemonic ++ "\""
      dimensions := [.text ""] }
  | .operands entry, element => element = tableOf "evoasm_x64_operand_t"
      ("operands_" ++ entry.1.name) (operandRows entry)
  | .domain allowed, element => IsDomainConstant allowed element
  | .domainCount size, element => element = domainsCount size
  | .parameters entry, element => element = tableOf "evoasm_x64_param_t"
      ("params_" ++ entry.1.name) ((tableRows entry).map parameterFields)
  | .instructions entries, element => ∃ rows : List (List String),
      element = tableOf "evoasm_x64_inst_t" "__evoasm_x64_insts" rows ∧
      List.Forall₂ (fun entry fields => fields = instructionFields entry.1 entry.2.parameters ∧
        NamesTables entry fields) entries rows
  | .instructionsReference _, element => element = publicReference
  | .stub function, element => element = function

/-- An element of a session is what a member says and defines its name. -/
structure Describes (session : Session) (member : Member) (element : Code.Element) : Prop where
  is : member.Is session.settings session.emission.numbers element
  named : element.name? = member.name?

/-- What a member refers to: code by the calls of its actions, and unordered writes by the
table of their orders, too. -/
def references (numbers : Numbers) : Member → List Reference
  | .ordering writes _ =>
    .definition (Naming.permutationTable (toString writes.length)) (.orders writes.length) ::
      (callsOf numbers writes).map .call
  | .routine target _ => (callsOf numbers (target.routineActions?.getD [])).map .call
  | .encoder instruction => (callsOf numbers instruction.encoding).map .call
  | .parameters entry => (tableRows entry).map fun row => .definition row.2.name (.domain row.2)
  | .instructions entries => entries.flatMap rowReferences
  | .instructionsReference entries =>
    [.definition Naming.staticInstructionTable (.instructions entries)]
  | .orders _ | .prototypes _ | .mnemonic _ | .operands _ | .domain _ | .domainCount _
  | .stub _ => []

end Member

/-- Every reference of the members of a file is resolved by earlier ones. -/
def InOrder (numbers : Numbers) (members : List Member) : Prop :=
  ∀ earlier member later, members = earlier ++ member :: later →
    ∀ reference ∈ member.references numbers, reference.ResolvedBy earlier

/-- No members are in order. -/
theorem InOrder.nil (numbers : Numbers) : InOrder numbers [] := by
  intro earlier member later split
  exact absurd split (by simp)

/-- Members whose references are resolved by others can follow these. -/
theorem InOrder.append {numbers : Numbers} {first second : List Member}
    (ordered : InOrder numbers first)
    (resolved : ∀ member ∈ second, ∀ reference ∈ member.references numbers,
      reference.ResolvedBy first) : InOrder numbers (first ++ second) := by
  intro earlier member later split reference stands
  rcases List.append_eq_append_iff.mp split with ⟨more, rfl, rest⟩ | ⟨more, rfl, rest⟩
  · -- The member is one of the second list, and those of the first one stand before it.
    have own := resolved member (rest ▸ List.mem_append_right _ List.mem_cons_self) reference stands
    exact own.mono (List.subset_append_left ..)
  · cases more with
    | nil =>
      rw [List.append_nil] at resolved
      exact resolved member (by rw [← List.nil_append second, ← rest]; exact List.mem_cons_self)
        reference stands
    | cons other more =>
      cases rest
      exact ordered earlier member more rfl reference stands

end EncoderTables.Generator
