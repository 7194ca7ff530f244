import EncoderTables.Generator.Tables

/-!
# Forms of tables

The elements that tables are made of, said of what they show: names, types and initializers are
written out here, and what is produced has these forms.
-/

namespace EncoderTables.Generator

/-- The private table of a type whose rows have the given fields. Rows and fields have lines of
their own, a row stands in braces, and so does the table, whose size is left open. -/
def tableOf (type name : String) (rows : List (List String)) : Code.Element :=
  .value {
    comment := ⟨"", ""⟩
    name := name
    type := ⟨type, [], true, 0⟩
    isPrivate := true
    value := "\x7b\n" ++ "\n".intercalate (rows.map fun fields =>
      "\x7b\n" ++ ",\n".intercalate fields ++ "\n\x7d,") ++ "\n\x7d"
    dimensions := [.text ""] }

/-- Rows of fields make up a table. -/
theorem openTable_rows (type name : String) (rows : List (List String)) :
    openTable name (.named type) (tableValue (rows.map rowText)) = tableOf type name rows := rfl

/-- The fields of the row of a parameter with a domain. -/
def parameterFields (row : String × Domain) : List String :=
  [Naming.parameter row.1 false, "(evoasm_domain_t *) &" ++ row.2.name]

/-- The row of a parameter is made of its fields. -/
theorem parameterRow_eq (parameter : String) (domain : Domain) :
    parameterRow parameter domain = rowText (parameterFields (parameter, domain)) := by
  have joined : ",\n" ++ "(evoasm_domain_t *) &" = ",\n(evoasm_domain_t *) &" := by decide
  simp only [parameterRow, rowText, parameterFields, String.intercalate_cons_cons,
    String.intercalate_singleton, ← joined, String.append_assoc]

/-- The public reference to the table of the instructions. -/
def publicReference : Code.Element :=
  .value {
    comment := ⟨"", ""⟩
    name := "_evoasm_x64_insts"
    type := ⟨"evoasm_x64_inst_t", [], true, 1⟩
    isPrivate := false
    value := "__evoasm_x64_insts"
    dimensions := [] }

/-- The instructions have a table and the reference to it. -/
theorem instructionTables_eq (rows : List (List String)) :
    instructionTables (rows.map rowText) =
      [tableOf "evoasm_x64_inst_t" "__evoasm_x64_insts" rows, publicReference] := by
  have table : Naming.staticInstructionTable = "__evoasm_x64_insts" := by decide
  have reference : Naming.instructionTable = "_evoasm_x64_insts" := by decide
  rw [instructionTables, table, reference]
  rfl

/-- A type and an initializer show a domain. -/
inductive Shows : Domain → String → String → Prop
  | interval (least greatest : Int) :
    Shows (.interval least greatest) "evoasm_interval_t"
      ("\x7bEVOASM_DOMAIN_TYPE_INTERVAL, " ++ toString least ++ ", " ++ toString greatest ++ "\x7d")
  | enumeration (members : List Member) :
    Shows (.enumeration members) ("evoasm_enum" ++ toString members.length ++ "_t")
      ("\x7bEVOASM_DOMAIN_TYPE_ENUM, " ++ toString members.length ++ ", \x7b" ++
        ", ".intercalate (members.map fun
          | .number value => toString value
          | .register id => Naming.register (Arch.registerName id)) ++ "\x7d\x7d")
  | signed (width : Width) (narrow : width ≠ .bits64) :
    Shows (.integers width true) "evoasm_interval_t"
      ("\x7bEVOASM_DOMAIN_TYPE_INTERVAL, INT" ++ toString width.bits ++ "_MIN, INT" ++
        toString width.bits ++ "_MAX\x7d")
  | unsigned (width : Width) (narrow : width ≠ .bits64) :
    Shows (.integers width false) "evoasm_interval_t"
      ("\x7bEVOASM_DOMAIN_TYPE_INTERVAL, 0, UINT" ++ toString width.bits ++ "_MAX\x7d")
  | signedWords :
    Shows (.integers .bits64 true) "evoasm_interval_t"
      "\x7bEVOASM_DOMAIN_TYPE_INT64, INT64_MIN, INT64_MAX\x7d"
  | unsignedWords :
    Shows (.integers .bits64 false) "evoasm_interval_t"
      "\x7bEVOASM_DOMAIN_TYPE_INT64, 0, UINT64_MAX\x7d"

/-- An element is the constant of a domain: it has its name and shows it. -/
def IsDomainConstant (domain : Domain) (element : Code.Element) : Prop :=
  ∃ type value, Shows domain type value ∧
    element = .value {
      comment := ⟨"", ""⟩
      name := domain.name
      type := ⟨type, [], true, 0⟩
      isPrivate := true
      value := value
      dimensions := [] }

/-- What is produced for a domain shows it. -/
theorem shows_constant (domain : Domain) : Shows domain domain.constant.1 domain.constant.2 := by
  cases domain with
  | interval least greatest => exact .interval least greatest
  | enumeration members =>
    have each (member : Member) : (match member with
        | .number value => toString value
        | .register id => Naming.register (Arch.registerName id)) = member.constant := by
      cases member <;> rfl
    have shown := Shows.enumeration members
    simp only [each] at shown
    exact shown
  | integers width signed =>
    cases width with
    | bits64 =>
      cases signed with
      | true => exact .signedWords
      | false => exact .unsignedWords
    | bits8 | bits16 | bits32 =>
      cases signed with
      | true => exact .signed _ (by decide)
      | false => exact .unsigned _ (by decide)

/-- What is produced for a domain is its constant. -/
theorem domainConstant_is (domain : Domain) : IsDomainConstant domain (domainConstant domain) :=
  ⟨_, _, shows_constant domain, rfl⟩

/-- The constant that counts the domains. -/
def domainsCount (size : Nat) : Code.Element :=
  .value {
    comment := ⟨"", ""⟩
    name := "evoasm_n_domains"
    type := ⟨"uint16_t", ["stdint.h"], true, 0⟩
    isPrivate := false
    value := toString size
    dimensions := [] }

/-- Each registered domain has a constant, and they are counted. -/
theorem domainConstants_eq (registry : Registry) :
    domainConstants registry =
      registry.domains.map domainConstant ++ [domainsCount registry.domains.length] := by
  have type : Code.TypeRef.integer 16 false = ⟨"uint16_t", ["stdint.h"], false, 0⟩ := by decide
  rw [domainConstants, type]
  rfl

end EncoderTables.Generator
