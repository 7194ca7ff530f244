import EncoderTables.Proofs.Domain.Names
import EncoderTables.Proofs.Domain.Registration
import EncoderTables.Proofs.Generator.Blocks
import EncoderTables.Proofs.Generator.ParameterLists
import EncoderTables.Proofs.Generator.ParameterTables

/-!
# Domain constants

The rows of parameter tables refer to domains by name. Each domain is registered while the
row that refers to it is produced, unless an equal one has been, and the constants are those
of the registered domains. Because no two domains share a name, what a row names is one
constant, and the one of its own domain.
-/

namespace EncoderTables

/-- Under distinct names only repetitions of the named things are repetitions of names. -/
theorem eraseDups_map {α β : Type} [DecidableEq α] [DecidableEq β] {name : α → β}
    (distinct : Function.Injective name) (members : List α) :
    (members.map name).eraseDups = members.eraseDups.map name := by
  induction members using List.reverseRecOn with
  | nil => rfl
  | append_singleton earlier member inductionHypothesis =>
    rw [List.map_append, List.eraseDups_append, List.eraseDups_append, inductionHypothesis]
    have named : name member ∈ earlier.map name ↔ member ∈ earlier :=
      List.mem_map_of_injective distinct
    by_cases known : member ∈ earlier
    · simp [named, known, List.removeAll, -List.mem_map]
    · simp [named, known, List.removeAll, List.eraseDups_cons, -List.mem_map]

namespace Generator

open Steps

/-- The domains that the rows of all parameter tables refer to, in the order of the rows. -/
def Session.references (session : Session) : List Domain := domainsOfTables session.encoded

/-- Behind a complete run the registered domains are those that rows refer to, each once, and
the constants are theirs. -/
theorem generate_domains {set : InstructionSet} {settings : Settings} {final : Session}
    (ran : generate (.start set settings) = .ok () final) :
    final.registry.domains = final.references.eraseDups ∧
      final.elements.lookup .domains = some (domainConstants final.registry) ∧
      ∃ block, final.blocks.lookup .domains = some block ∧
        Code.render (domainConstants final.registry) final.settings.indent final.settings.width
          true = .ok block := by
  -- The registry is filled by one phase, read by another one and left alone by all the others.
  obtain ⟨before, tables, _, filled, earlier, made, -, later, -⟩ := @generate_made _ _ _ ran
    .parameters (emissionPhases ++ [.instructions, .operands, .mnemonics])
    [.parameterStructures, .accessorStubs, .domains, .enumerations, .accessors] rfl
  obtain ⟨reading, constants, block, read, reached, produced, printed, closing, found, text⟩ :=
    @generate_made _ _ _ ran .domains
      (emissionPhases ++ [.instructions, .operands, .mnemonics, .parameters,
        .parameterStructures, .accessorStubs]) [.enumerations, .accessors] rfl
  have unregistered : before.registry = .empty := by
    rw [runAll_registry (by decide) earlier, Session.start, tell_frame]
  have known : final.registry = filled.registry := by rw [runAll_registry (by decide) later]
  have same : final.encoded = before.encoded := by
    obtain ⟨agrees, -⟩ := runAll_describes (by decide) later
    rw [← agrees.encoded_eq]
    have frame := produce_frame rfl made
    rw [tell_frame] at frame
    rw [frame]
    rfl
  rw [produce_parameters] at made
  have registered : filled.registry =
      Registry.empty.registerAll (domainsOfTables before.encoded) := by
    obtain ⟨-, -, rfl⟩ := parameterTables_ok made
    rw [tell_frame, ← unregistered]
    rfl
  rw [produce_domains] at produced
  obtain ⟨rfl, rfl⟩ := EStateM.Result.ok.inj produced
  have kept : (reading.tell ("\t\tTranslating " ++ Phase.domains.title ++ "...")).registry =
      final.registry := by rw [runAll_registry (by decide) closing]
  rw [kept] at found printed
  refine ⟨?_, found, block, text, printed⟩
  rw [known, registered, Session.references, same]
  exact Registry.domains_registerAll _

/-- The constants of domains agree with the rows that name them: `domains` are the domains
of the constants in their order. -/
structure Session.Named (session : Session) (domains : List Domain) : Prop where
  /-- The rows that name domains are those of the emitted parameter tables. -/
  tables : session.elements.lookup .parameters =
    some ((session.encoded.filter fun entry => !entry.2.parameters.isEmpty).map fun entry =>
      tableOf "evoasm_x64_param_t" ("params_" ++ entry.1.name)
        ((tableRows entry).map parameterFields))
  /-- Each domain has a constant, and behind all of them stands their number. -/
  constants : ∃ constants block, List.Forall₂ IsDomainConstant domains constants ∧
    session.elements.lookup .domains = some (constants ++ [domainsCount domains.length]) ∧
    session.blocks.lookup .domains = some block ∧
    Code.render (constants ++ [domainsCount domains.length]) session.settings.indent
      session.settings.width true = .ok block
  distinct : (domains.map Domain.name).Nodup
  /-- Exactly the domains that rows name have constants, in the order of the first row. -/
  ordered : domains.map Domain.name =
    ((session.encoded.flatMap tableRows).map fun row => row.2.name).eraseDups
  /-- A row names the constant of its own domain. -/
  own : ∀ entry ∈ session.encoded, ∀ row ∈ tableRows entry, ∀ domain ∈ domains,
    domain.name = row.2.name → domain = row.2
  counted : session.scalars.lookup "n_domains" = some (.number domains.length)

/-- Behind a complete run the constants of domains are those that the rows of the parameter
tables name, each once, in the order in which they are first named; a row names the constant
of its own domain, which shows it; and their number is the one that is told. This rests on the
names: no two domains share one. -/
theorem domain_constants {set : InstructionSet} {settings : Settings} {final : Session}
    (ran : generate (.start set settings) = .ok () final) :
    (∃ domains, final.Named domains) ∧
      ∀ first second : Domain, first ≠ second → first.name ≠ second.name := by
  obtain ⟨registered, found, block, text, printed⟩ := generate_domains ran
  rw [domainConstants_eq] at found printed
  have named : Function.Injective Domain.name := fun _ _ same => Domain.name_inj.mp same
  refine ⟨⟨final.registry.domains, ?_⟩, fun _ _ => mt (@named _ _)⟩
  constructor
  case tables => exact (generate_tables ran).2
  case constants =>
    refine ⟨_, block, ?_, found, text, printed⟩
    exact List.forall₂_map_right_iff.mpr
      (List.forall₂_same.mpr fun domain _ => domainConstant_is domain)
  case distinct =>
    rw [registered]
    exact (nodup_eraseDups _).map named
  case ordered =>
    rw [registered, ← eraseDups_map named, Session.references, domainsOfTables]
    simp only [List.map_flatMap, List.map_map]
    rfl
  case own =>
    intro entry _ row _ domain _ same
    exact named same
  case counted => rfl

/-- The tables of two instructions that share a routine name the constants of their domains. -/
theorem domain_constants_of_sharing : ∃ set final, sharingSet = .ok set ∧
    generate (.start set .default) = .ok () final ∧ (∃ domains, final.Named domains) ∧
      ∀ first second : Domain, first ≠ second → first.name ≠ second.name := by
  have evaluated : Results.passes tablesSucceed sharingSet = true := by
    decide +kernel
  obtain ⟨set, made, succeed⟩ := Results.exists_ok evaluated
  obtain ⟨final, ran⟩ := generate_succeeds succeed
  exact ⟨set, final, made, ran, domain_constants ran⟩

end Generator

end EncoderTables
