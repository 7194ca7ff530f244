import EncoderTables.Proofs.Domain.Registration
import EncoderTables.Proofs.Generator.TableForms
import EncoderTables.Proofs.Steps

/-!
# Parameter tables

The parameter table of an instruction has one row for each of its parameters, with the domain
that the instruction's encoding imposed on it or else the one that the instruction itself gives
it. Instructions without parameters have no table. The domains are registered in the order of
the rows, and nothing else is changed by producing them.
-/

namespace EncoderTables.Generator

open Steps

/-- The parameters that have a domain, with it. -/
def domainRows (instruction : Instruction) (imposed : List (String × Domain))
    (parameters : List String) : List (String × Domain) :=
  parameters.filterMap fun parameter =>
    (rowDomain instruction imposed parameter).toOption.map fun domain => (parameter, domain)

/-- The rows of an encoded instruction's parameter table. -/
def tableRows (entry : Instruction × Emitter) : List (String × Domain) :=
  domainRows entry.1 entry.2.domains entry.2.parameters

/-- The parameter table of an encoded instruction. -/
def tableElement (entry : Instruction × Emitter) : Code.Element :=
  tableOf "evoasm_x64_param_t" ("params_" ++ entry.1.name) ((tableRows entry).map parameterFields)

/-- The table that is produced for the rows of an encoded instruction. -/
theorem parameterTable_eq (entry : Instruction × Emitter) :
    parameterTable entry.1 ((tableRows entry).map fun row => parameterRow row.1 row.2) =
      tableElement entry := by
  rw [tableElement, ← openTable_rows, List.map_map]
  exact congrArg (parameterTable entry.1 ·) (List.map_congr_left fun row _ => parameterRow_eq ..)

/-- The domains that the tables of several instructions refer to, row by row. -/
def domainsOfTables (entries : List (Instruction × Emitter)) : List Domain :=
  entries.flatMap fun entry => (tableRows entry).map (·.2)

/-- The domains of one table come before those of the others. -/
theorem domainsOfTables_cons (entry : Instruction × Emitter)
    (rest : List (Instruction × Emitter)) :
    domainsOfTables (entry :: rest) = (tableRows entry).map (·.2) ++ domainsOfTables rest :=
  List.flatMap_cons

/-- A row pairs a parameter with its domain. -/
theorem mem_domainRows (instruction : Instruction) (imposed : List (String × Domain))
    (parameters : List String) (row : String × Domain) :
    row ∈ domainRows instruction imposed parameters ↔
      row.1 ∈ parameters ∧ rowDomain instruction imposed row.1 = .ok row.2 := by
  obtain ⟨name, domain⟩ := row
  simp only [domainRows, List.mem_filterMap, Option.map_eq_some_iff, Prod.mk.injEq]
  constructor
  · rintro ⟨parameter, member, found, known, rfl, rfl⟩
    refine ⟨member, ?_⟩
    cases result : rowDomain instruction imposed parameter with
    | ok domain => simp_all [Except.toOption]
    | error failure => simp [result, Except.toOption] at known
  · rintro ⟨member, found⟩
    exact ⟨name, member, domain, by simp [found, Except.toOption], rfl, rfl⟩

/-- The row of a parameter that has a domain comes before those of the others. -/
theorem domainRows_cons {instruction : Instruction} {imposed : List (String × Domain)}
    {parameter : String} {domain : Domain}
    (found : rowDomain instruction imposed parameter = .ok domain) (rest : List String) :
    domainRows instruction imposed (parameter :: rest) =
      (parameter, domain) :: domainRows instruction imposed rest := by
  simp [domainRows, found, Except.toOption]

/-- Rows that have been produced are there for each parameter, and all that has changed is that
their domains are registered. -/
theorem parameterRows_ok {instruction : Instruction} {imposed : List (String × Domain)}
    {parameters texts : List String} {before after : Session}
    (made : parameterRows instruction imposed parameters before = .ok texts after) :
    (domainRows instruction imposed parameters).map (·.1) = parameters ∧
      texts = ((domainRows instruction imposed parameters).map fun row =>
        parameterRow row.1 row.2) ∧
      after = { before with
        registry := before.registry.registerAll
          ((domainRows instruction imposed parameters).map (·.2)) } := by
  induction parameters generalizing before texts with
  | nil =>
    simp only [parameterRows, pure_ok_iff] at made
    exact ⟨rfl, made.1.symm, made.2.symm⟩
  | cons parameter rest inductionHypothesis =>
    simp only [parameterRows, bind_ok_iff, pure_ok_iff, modify_ok_iff,
      Run.ofExcept_ok_iff] at made
    obtain ⟨domain, _, ⟨found, rfl⟩, _, _, rfl, others, _, remaining, rfl, rfl⟩ := made
    obtain ⟨names, later, registered⟩ := inductionHypothesis remaining
    rw [domainRows_cons found]
    exact ⟨congrArg (parameter :: ·) names, congrArg (parameterRow parameter domain :: ·) later,
      registered⟩

/-- Tables that have been produced have a row for each parameter, there is one for each
instruction that has parameters, and all that has changed is that their domains are registered. -/
theorem parameterTables_ok {entries : List (Instruction × Emitter)}
    {before after : Session} {tables : List Code.Element}
    (made : parameterTables entries before = .ok tables after) :
    (∀ entry ∈ entries, (tableRows entry).map (·.1) = entry.2.parameters) ∧
      tables = ((entries.filter fun entry => !entry.2.parameters.isEmpty).map tableElement) ∧
      after = { before with
        registry := before.registry.registerAll (domainsOfTables entries) } := by
  induction entries generalizing before tables with
  | nil =>
    simp only [parameterTables, pure_ok_iff] at made
    exact ⟨by simp, made.1.symm, made.2.symm⟩
  | cons entry rest inductionHypothesis =>
    unfold parameterTables at made
    split at made
    · next empty =>
      have none : tableRows entry = [] := by
        rw [tableRows, List.isEmpty_iff.mp empty]
        rfl
      obtain ⟨names, later, registered⟩ := inductionHypothesis made
      refine ⟨List.forall_mem_cons.mpr ⟨?_, names⟩, ?_, ?_⟩
      · rw [none, List.isEmpty_iff.mp empty]
        rfl
      · rw [later, List.filter_cons_of_neg (by simpa using empty)]
      · rw [registered, domainsOfTables_cons, none]
        rfl
    · next some =>
      simp only [bind_ok_iff, pure_ok_iff] at made
      obtain ⟨texts, middle, first, others, _, remaining, rfl, rfl⟩ := made
      obtain ⟨names, later, registered⟩ := inductionHypothesis remaining
      obtain ⟨own, rows, changed⟩ := parameterRows_ok first
      refine ⟨List.forall_mem_cons.mpr ⟨own, names⟩, ?_, ?_⟩
      · rw [List.filter_cons_of_pos (by simpa using some), List.map_cons, later, rows,
          ← parameterTable_eq]
        rfl
      · rw [domainsOfTables_cons, Registry.registerAll_append, registered, changed]
        rfl

end EncoderTables.Generator
