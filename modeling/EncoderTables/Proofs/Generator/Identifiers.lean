import EncoderTables.Proofs.Generator.DefinedNames

/-!
# Identifiers of the generated code

The generated code refers to functions, tables, domains and constants by name, so their names
must be identifiers and distinct. The families of names have leaders that are apart, and within
a family names differ because what they are made of does. But the names of instructions are
free: a line feed may stand behind them, and they can be those of functions that instructions
share, of accessors and of flags. And the name of an enumeration shows the minus sign of a
negative member.
-/

namespace EncoderTables

/-- Whether a member is a number below zero. -/
def Member.isNegative : Member → Bool
  | .number value => value < 0
  | .register _ => false

namespace Domain

/-- Whether a domain is an enumeration with a number below zero. -/
def hasNegative : Domain → Bool
  | .enumeration members => members.any Member.isNegative
  | _ => false

/-- What stands behind the common leader in the name of a domain. -/
def shortName : Domain → String
  | interval least greatest => "__" ++ boundText least ++ "_" ++ boundText greatest
  | enumeration members => "_enum__" ++ "_".intercalate (members.map Member.text)
  | integers width true => "_int" ++ toString width.bits
  | integers width false => "_uint" ++ toString width.bits

/-- The names of domains have a common leader. -/
theorem name_eq (domain : Domain) : domain.name = "param_domain" ++ domain.shortName := by
  rw [← String.toList_inj]
  cases domain with
  | interval least greatest =>
    change ("param_domain__" ++ boundText least ++ "_" ++ boundText greatest).toList =
      ("param_domain" ++ ("__" ++ boundText least ++ "_" ++ boundText greatest)).toList
    simp
  | enumeration members =>
    change ("param_domain_enum__" ++ "_".intercalate (members.map Member.text)).toList =
      ("param_domain" ++ ("_enum__" ++ "_".intercalate (members.map Member.text))).toList
    simp
  | integers width signed => cases width <;> cases signed <;> rfl

end Domain

/-- The common leaders of the names of a run. -/
def familyLeaders : List String :=
  ["evoasm_x64_", "permutations", "_", "operands_", "name_", "params_", "param_domain",
   "evoasm_n_", "EVOASM_X64_"]

/-- Identifiers can start with these leaders. -/
theorem isLeader_of_family : ∀ leader ∈ familyLeaders, leader ≠ "_" →
    Text.isLeader leader = true := by
  decide

namespace Text

/-- The digits of a number are characters of identifiers. -/
theorem parts_digits (value : Nat) : ∀ c ∈ Nat.toDigits 10 value, isIdentifierPart c = true :=
  fun _ member => (upperChar_digit (isDigit_of_mem_digits member)).2

/-- So is the text of a number. -/
theorem parts_number (value : Nat) :
    ∀ c ∈ (toString value).toList, isIdentifierPart c = true := by
  have digits : (toString value).toList = Nat.toDigits 10 value := by simp
  rw [digits]
  exact parts_digits value

/-- Separated texts have the letters of each. -/
theorem mem_intercalate_of_mem {c : Char} {row text : String} {texts : List String}
    (listed : text ∈ texts) (inside : c ∈ text.toList) : c ∈ (row.intercalate texts).toList := by
  induction texts with
  | nil => cases listed
  | cons first rest inductionHypothesis =>
    cases rest with
    | nil =>
      obtain rfl := List.mem_singleton.mp listed
      simpa using inside
    | cons second rest =>
      rw [String.intercalate_cons_cons, String.toList_append, String.toList_append]
      rcases List.mem_cons.mp listed with rfl | later
      · exact List.mem_append_left _ (List.mem_append_left _ inside)
      · exact List.mem_append_right _ (inductionHypothesis later)

end Text

/-- The text of a member is one of identifiers unless it is a number below zero. -/
theorem Member.parts_text_iff (member : Member) :
    (∀ c ∈ member.text.toList, Text.isIdentifierPart c = true) ↔ member.isNegative = false := by
  cases member with
  | number value =>
    have letters : (Member.number value).text.toList = value.repr.toList := rfl
    have sign : Text.isIdentifierPart '-' = false := by decide
    rw [letters, toList_repr_int]
    split
    · next negative => simp [isNegative, negative, sign]
    · next natural =>
      have free : (Member.number value).isNegative = false := decide_eq_false natural
      exact iff_of_true (Text.parts_digits _) free
  | register id =>
    have names : ∀ id : Arch.Register,
        (Arch.registerName id).toList.all Text.isIdentifierPart = true := by
      decide
    exact iff_of_true (List.all_eq_true.mp (names id)) rfl

/-- The name of a domain is an identifier unless it is an enumeration with a number below
zero. -/
theorem Domain.isIdentifier_name_iff (domain : Domain) :
    Text.isIdentifier domain.name = true ↔ domain.hasNegative = false := by
  have leads := isLeader_of_family "param_domain" (by decide) (by decide)
  rw [name_eq, Text.isIdentifier_append leads]
  cases domain with
  | interval least greatest =>
    have bound (value : Int) : ∀ c ∈ (boundText value).toList, Text.isIdentifierPart c = true := by
      rw [toList_boundText]
      split
      · exact List.forall_mem_cons.mpr ⟨by decide, Text.parts_digits _⟩
      · exact Text.parts_digits _
    refine iff_of_true ?_ rfl
    simp only [shortName, String.toList_append, List.forall_mem_append]
    exact ⟨⟨⟨List.all_eq_true.mp (by decide), bound least⟩, List.all_eq_true.mp (by decide)⟩,
      bound greatest⟩
  | enumeration members =>
    have start : ∀ c ∈ "_enum__".toList, Text.isIdentifierPart c = true :=
      List.all_eq_true.mp (by decide)
    have mark : ∀ c ∈ "_".toList, Text.isIdentifierPart c = true :=
      List.all_eq_true.mp (by decide)
    simp only [shortName, String.toList_append, List.forall_mem_append, hasNegative,
      List.any_eq_false, Bool.not_eq_true, ← Member.parts_text_iff]
    constructor
    · rintro ⟨-, parts⟩ member listed c inside
      exact parts c (Text.mem_intercalate_of_mem (List.mem_map_of_mem listed) inside)
    · refine fun each => ⟨start, fun c inside => ?_⟩
      rcases Text.mem_intercalate inside with between | ⟨text, listed, own⟩
      · exact mark c between
      · obtain ⟨member, known, rfl⟩ := List.mem_map.mp listed
        exact each member known c own
  | integers width signed =>
    have parts : (integers width signed).shortName.toList.all Text.isIdentifierPart = true := by
      cases width <;> cases signed <;> decide
    exact iff_of_true (List.all_eq_true.mp parts) rfl

/-- A valid name makes an identifier unless a line feed stands behind it. -/
theorem Instruction.parts_name_iff {name : String} (valid : isValidName name = true) :
    (∀ c ∈ name.toList, Text.isIdentifierPart c = true) ↔ '\n' ∉ name.toList := by
  constructor
  · intro parts member
    exact absurd (parts _ member) (by decide)
  · intro free c member
    rcases isNamePart_of_isValidName valid c member with part | rfl
    · exact (isIdentifierPart_of_isNamePart part).1
    · exact absurd member free

namespace Generator

section Families

variable {set : InstructionSet} {settings : Settings} {final : Session}

/-- Names with leaders that are apart differ. -/
theorem disjoint_of_leaders {first second : String} {names others : List String}
    (one : ∀ name ∈ names, ∃ rest, name = first ++ rest)
    (two : ∀ name ∈ others, ∃ rest, name = second ++ rest)
    (apart : ¬first.toList <+: second.toList ∧ ¬second.toList <+: first.toList) :
    names.Disjoint others := by
  intro name member other
  obtain ⟨rest, rfl⟩ := one name member
  obtain ⟨more, same⟩ := two _ other
  have letters := congrArg String.toList same
  rw [String.toList_append, String.toList_append] at letters
  rcases List.prefix_or_prefix_of_prefix (List.prefix_append _ _)
    (letters ▸ List.prefix_append _ _) with latter | former
  · exact apart.2 latter
  · exact apart.1 former

/-- Constants start with their common leader. -/
theorem member_eq (group name : String) :
    ∃ rest, Naming.member group name = "EVOASM_X64_" ++ rest := by
  refine ⟨String.ofList (Text.upperLetters group ++ ['_'] ++ Text.upperLetters name), ?_⟩
  rw [← String.toList_inj, Naming.toList_member, String.toList_append, Naming.groupLeader,
    List.append_assoc]
  exact congrArg (Naming.constantLeader ++ ·) String.toList_ofList.symm

/-- The names of a family start with its leader. -/
theorem families_lead : ∀ family ∈ families set final, ∀ name ∈ family.2,
    ∃ rest, name = family.1 ++ rest := by
  simp only [families, List.forall_mem_cons, List.forall_mem_map, List.not_mem_nil, false_imp_iff,
    implies_true, and_true]
  refine ⟨fun name _ => ⟨name, rfl⟩, fun _ _ => ⟨_, rfl⟩,
    ⟨⟨"_evoasm_x64_insts", by decide⟩, ⟨"evoasm_x64_insts", by decide⟩⟩, fun _ _ => ⟨_, rfl⟩,
    fun _ _ => ⟨_, rfl⟩, fun _ _ => ⟨_, rfl⟩, fun domain _ => ⟨_, domain.name_eq⟩,
    ⟨"domains", by decide⟩, fun name member => ?_⟩
  obtain ⟨_, -, _, -, rfl⟩ := mem_enumeratorNames_iff.mp member
  exact member_eq ..

/-- Families differ by their leaders. -/
theorem families_apart : (families set final).Pairwise fun first second =>
    first.2.Disjoint second.2 := by
  have leaders : ((families set final).map (·.1)).Pairwise fun first second =>
      ¬first.toList <+: second.toList ∧ ¬second.toList <+: first.toList := by
    have fixed : familyLeaders.Pairwise fun first second =>
        ¬first.toList <+: second.toList ∧ ¬second.toList <+: first.toList := by
      decide
    exact fixed
  rw [List.pairwise_map] at leaders
  exact leaders.imp_of_mem fun one two =>
    disjoint_of_leaders (families_lead _ one) (families_lead _ two)

/-- Names behind a common leader are distinct when they are. -/
theorem nodup_leader {leader : String} {names : List String} :
    (names.map (leader ++ ·)).Nodup ↔ names.Nodup := by
  refine List.nodup_map_iff fun first second same => ?_
  simpa using same

/-- Numbers have different texts. -/
theorem toString_injective : Function.Injective (toString : Nat → String) := by
  intro first second same
  have letters := congrArg String.toList same
  simp only [Nat.toString_eq_repr, Nat.toList_repr] at letters
  exact digits_injective letters

/-- The shared functions have different names. -/
theorem nodup_sharedNames (emission : Emission) : (sharedNames emission).Nodup := by
  have accessors : (accessorNames true ++ accessorNames false).Nodup := by decide
  have apart : ∀ name ∈ accessorNames true ++ accessorNames false,
      ¬"prefs_".toList <+: name.toList ∧ ¬"func_".toList <+: name.toList := by
    decide
  have numbered (leader : String) (size : Nat) :
      ((List.range size).map fun id => leader ++ toString id).Nodup := by
    refine List.Nodup.map (fun first second same => ?_) List.nodup_range
    exact toString_injective (by simpa using same)
  have led {leader name : String} {size : Nat}
      (member : name ∈ (List.range size).map fun id => leader ++ toString id) :
      ∃ rest, name = leader ++ rest := by
    obtain ⟨id, -, rfl⟩ := List.mem_map.mp member
    exact ⟨_, rfl⟩
  have starts {leader name : String} (leading : ∃ rest, name = leader ++ rest) :
      leader.toList <+: name.toList := by
    obtain ⟨rest, rfl⟩ := leading
    rw [String.toList_append]
    exact List.prefix_append _ _
  have functions := disjoint_of_leaders
    (fun name => @led "prefs_" name emission.orderings.keys.length)
    (fun name => @led "func_" name emission.routines.keys.length) (by decide)
  rw [sharedNames, List.append_assoc, List.nodup_append']
  refine ⟨List.nodup_append'.mpr ⟨numbered _ _, numbered _ _, functions⟩, accessors, ?_⟩
  intro name member accessor
  rcases List.mem_append.mp member with ordering | routine
  · exact (apart name accessor).1 (starts (led ordering))
  · exact (apart name accessor).2 (starts (led routine))

/-- The names of instructions are distinct, also of those of some kind. -/
theorem nodup_encoded (filled : set.Filled) (ran : generate (.start set settings) = .ok () final)
    (keep : Instruction × Emitter → Bool) :
    ((final.encoded.filter keep).map fun entry => entry.1.name).Nodup := by
  have names := filled.registered.distinct
  rw [← (generate_encodes ran).1.map_fst_encoded, List.map_map] at names
  exact names.sublist ((List.filter_sublist).map _)

/-- The names of all families are distinct when those of functions and of enumerators are. -/
theorem nodup_families_iff (filled : set.Filled)
    (ran : generate (.start set settings) = .ok () final) :
    ((families set final).flatMap (·.2)).Nodup ↔
      (∀ name ∈ set.instructions.map (·.name), name ∉ sharedNames final.emission) ∧
        (enumeratorNames set).Nodup := by
  obtain ⟨_, _, _, emits⟩ := generate_emits ran
  have names := filled.registered.distinct
  have functions : ((set.instructions.map (·.name) ++ sharedNames final.emission).map
      Naming.encoder).Nodup ↔
        ∀ name ∈ set.instructions.map (·.name), name ∉ sharedNames final.emission := by
    have own := @nodup_leader "evoasm_x64_"
      (set.instructions.map (·.name) ++ sharedNames final.emission)
    refine own.trans ?_
    rw [List.nodup_append']
    exact ⟨fun distinct name member shared => distinct.2.2 member shared,
      fun free => ⟨names, nodup_sharedNames _, fun name => free name⟩⟩
  have tables : (final.emission.permutations.map fun items =>
      Naming.permutationTable (toString items)).Nodup := by
    refine emits.distinct.map fun first second same => ?_
    exact toString_injective (by simpa [Naming.permutationTable] using same)
  have entries {leader : String} (keep : Instruction × Emitter → Bool) :
      ((final.encoded.filter keep).map fun entry => leader ++ entry.1.name).Nodup := by
    have distinct := (@nodup_leader leader _).mpr (nodup_encoded filled ran keep)
    rwa [List.map_map] at distinct
  have mnemonics : (set.instructions.map fun instruction =>
      Naming.mnemonic instruction.name).Nodup := by
    have distinct := (@nodup_leader "name_" _).mpr names
    rwa [List.map_map] at distinct
  have domains : (final.registry.domains.map Domain.name).Nodup := by
    rw [(generate_domains ran).1]
    exact (nodup_eraseDups _).map fun _ _ same => Domain.name_inj.mp same
  have single : ["evoasm_n_domains"].Nodup := List.nodup_singleton _
  have references : [Naming.staticInstructionTable, Naming.instructionTable].Nodup := by
    decide
  rw [List.nodup_flatMap, and_iff_left families_apart]
  simp only [families, List.forall_mem_cons, List.not_mem_nil, false_imp_iff, implies_true,
    and_true, functions, tables, references, mnemonics, domains, single, true_and]
  exact and_congr_right fun _ => ⟨fun all => all.2.2, fun own => ⟨entries _, entries _, own⟩⟩

/-- The enumerators are identifiers when no line feed stands behind the name of an
instruction. -/
theorem isIdentifier_enumerator (filled : set.Filled)
    (free : ∀ instruction ∈ set.instructions, '\n' ∉ instruction.name.toList) {name : String}
    (member : name ∈ enumeratorNames set) : Text.isIdentifier name = true := by
  obtain ⟨group, grouped, symbol, known, rfl⟩ := mem_enumeratorNames_iff.mp member
  have leads := isLeader_of_family "EVOASM_X64_" (by decide) (by decide)
  have upper : ∀ c ∈ Text.upperLetters symbol, Text.isIdentifierPart c = true := by
    by_cases own : group.1 = "inst"
    · obtain ⟨instruction, listed, rfl⟩ := List.mem_map.mp (symbols_inst grouped own ▸ known)
      have valid := (filled.sound listed).1
      rw [Text.upperLetters, Text.flatMap_upperChar (Instruction.isPlain_of_isValidName valid)]
      intro c inside
      obtain ⟨lower, letter, rfl⟩ := List.mem_map.mp inside
      rcases Instruction.isNamePart_of_isValidName valid lower letter with part | rfl
      · exact (Instruction.isIdentifierPart_of_isNamePart part).2
      · exact absurd letter (free instruction listed)
    · exact parts_symbol grouped own known
  have parts : ∀ c ∈ (Naming.member group.1 symbol).toList, Text.isIdentifierPart c = true := by
    rw [Naming.toList_member]
    exact List.forall_mem_append.mpr ⟨parts_groupLeader grouped, upper⟩
  obtain ⟨rest, split⟩ := member_eq group.1 symbol
  rw [split, Text.isIdentifier_append leads]
  rw [split, String.toList_append] at parts
  exact (List.forall_mem_append.mp parts).2

/-- The parts of the names of shared functions that are their own are characters of
identifiers. -/
theorem parts_sharedNames (emission : Emission) : ∀ name ∈ sharedNames emission,
    ∀ c ∈ name.toList, Text.isIdentifierPart c = true := by
  have accessors : ∀ name ∈ accessorNames true ++ accessorNames false,
      name.toList.all Text.isIdentifierPart = true := by
    decide
  have numbered {leader : String} (parts : ∀ c ∈ leader.toList, Text.isIdentifierPart c = true)
      (id : Nat) : ∀ c ∈ (leader ++ toString id).toList, Text.isIdentifierPart c = true := by
    rw [String.toList_append]
    exact List.forall_mem_append.mpr ⟨parts, Text.parts_number id⟩
  rw [sharedNames, List.append_assoc, List.forall_mem_append, List.forall_mem_append,
    List.forall_mem_map, List.forall_mem_map]
  exact ⟨⟨fun id _ => numbered (List.all_eq_true.mp (by decide)) id,
    fun id _ => numbered (List.all_eq_true.mp (by decide)) id⟩,
    fun name listed => List.all_eq_true.mp (accessors name listed)⟩

/-- The names of all families are identifiers when those of the instructions and of the domains
can be. -/
theorem isIdentifier_families_iff (filled : set.Filled)
    (ran : generate (.start set settings) = .ok () final) :
    (∀ name ∈ (families set final).flatMap (·.2), Text.isIdentifier name = true) ↔
      (∀ instruction ∈ set.instructions, '\n' ∉ instruction.name.toList) ∧
        ∀ domain ∈ final.registry.domains, domain.hasNegative = false := by
  have instructions := (generate_encodes ran).1.map_fst_encoded
  have named {leader : String} (leads : Text.isLeader leader = true) {instruction : Instruction}
      (member : instruction ∈ set.instructions) :
      Text.isIdentifier (leader ++ instruction.name) = true ↔
        '\n' ∉ instruction.name.toList := by
    rw [Text.isIdentifier_append leads]
    exact Instruction.parts_name_iff (filled.sound member).1
  have functions := isLeader_of_family "evoasm_x64_" (by decide) (by decide)
  constructor
  · intro all
    refine ⟨fun instruction member => ?_, fun domain member => ?_⟩
    · refine (named functions member).mp (all _ (List.mem_flatMap.mpr
        ⟨_, List.mem_cons_self, List.mem_map_of_mem (List.mem_append_left _
          (List.mem_map_of_mem member))⟩))
    · have listed : domain.name ∈ (families set final).flatMap (·.2) := by
        refine List.mem_flatMap.mpr ⟨("param_domain", final.registry.domains.map Domain.name), ?_,
          List.mem_map_of_mem member⟩
        simp [families]
      exact domain.isIdentifier_name_iff.mp (all _ listed)
  · rintro ⟨free, natural⟩
    have entries {leader : String} (leads : Text.isLeader leader = true)
        (keep : Instruction × Emitter → Bool) :
        ∀ entry ∈ final.encoded.filter keep,
          Text.isIdentifier (leader ++ entry.1.name) = true := by
      intro entry kept
      have known : entry.1 ∈ set.instructions :=
        instructions ▸ List.mem_map_of_mem (List.mem_filter.mp kept).1
      exact (named leads known).mpr (free _ known)
    have shared : ∀ name ∈ set.instructions.map (·.name) ++ sharedNames final.emission,
        Text.isIdentifier (Naming.encoder name) = true := by
      rw [List.forall_mem_append, List.forall_mem_map]
      refine ⟨fun instruction member => (named functions member).mpr (free _ member), ?_⟩
      intro name member
      exact (Text.isIdentifier_append functions name).mpr (parts_sharedNames _ name member)
    have tables : ∀ items ∈ final.emission.permutations,
        Text.isIdentifier (Naming.permutationTable (toString items)) = true := fun items _ =>
      (Text.isIdentifier_append (isLeader_of_family _ (by decide) (by decide)) _).mpr
        (Text.parts_number items)
    simp only [List.forall_mem_flatMap, families, List.forall_mem_cons, List.forall_mem_map,
      List.not_mem_nil, false_imp_iff, implies_true, and_true]
    have fixed : (∀ name ∈ [Naming.staticInstructionTable, Naming.instructionTable],
        Text.isIdentifier name = true) ∧ Text.isIdentifier "evoasm_n_domains" = true := by
      decide
    refine ⟨shared, tables, by simpa using fixed.1,
      entries (isLeader_of_family _ (by decide) (by decide)) _, ?_,
      entries (isLeader_of_family _ (by decide) (by decide)) _, ?_, fixed.2, ?_⟩
    · have leads := isLeader_of_family "name_" (by decide) (by decide)
      exact fun instruction member => (named leads member).mpr (free _ member)
    · exact fun domain member => domain.isIdentifier_name_iff.mpr (natural domain member)
    · exact fun name member => isIdentifier_enumerator filled free member

/-- Behind a complete run the names of functions, tables, domains and enumerators are
identifiers exactly when no line feed stands behind the name of an instruction and no registered
enumeration has a number below zero, and they are distinct exactly when no instruction is named
like a shared function, an accessor or a flag. -/
theorem definedNames_sound_iff (filled : set.Filled)
    (ran : generate (.start set settings) = .ok () final) :
    ((∀ name ∈ final.definedNames, Text.isIdentifier name = true) ↔
      (∀ instruction ∈ set.instructions, '\n' ∉ instruction.name.toList) ∧
        ∀ domain ∈ final.registry.domains, domain.hasNegative = false) ∧
    (final.definedNames.Nodup ↔ ∀ instruction ∈ set.instructions,
      instruction.name ∉ sharedNames final.emission ∧
        ∀ flag ∈ Arch.instructionFlags, instruction.name ≠ "flag_" ++ flag) := by
  have same := definedNames_perm ran
  constructor
  · rw [← isIdentifier_families_iff filled ran]
    exact forall_congr' fun name => imp_congr_left same.mem_iff
  · rw [same.nodup_iff, nodup_families_iff filled ran, nodup_enumeratorNames_iff filled,
      List.forall_mem_map]
    constructor
    · rintro ⟨functions, flags⟩ instruction member
      refine ⟨functions instruction member, fun flag known equal => flags flag known ?_⟩
      exact equal ▸ List.mem_map_of_mem member
    · intro free
      refine ⟨fun instruction member => (free instruction member).1, fun flag known named => ?_⟩
      obtain ⟨instruction, member, equal⟩ := List.mem_map.mp named
      exact (free instruction member).2 flag known equal

end Families

/-- An instruction whose immediate is one of two numbers, one of them below zero, and one that is
named like a flag. -/
def signedAndFlag : Except Failure InstructionSet := do
  let signed ← Instruction.make "step_imm8" "step" "imm8:r" [.write (.param "imm0") 8] [] [] []
    [("imm0", .enumeration [.number (-1), .number 1])]
  let flagged ← Instruction.make "flag_rex" "flag" "" [.write (.literal (.number 144)) 8] [] [] [] []
  InstructionSet.empty.addAll [signed, flagged]

/-- The name of the domain is no identifier, and the constant of the instruction is declared
twice. -/
theorem names_of_signedAndFlag : ∃ (set : InstructionSet) (final : Session),
    signedAndFlag = .ok set ∧ set.Filled ∧ generate (.start set .default) = .ok () final ∧
    (¬∀ name ∈ final.definedNames, Text.isIdentifier name = true) ∧ ¬final.definedNames.Nodup := by
  have evaluated : Results.passes (fun set => tablesSucceed set &&
      set.instructions.any (fun instruction => instruction.name == "flag_rex") &&
      set.instructions.any fun instruction =>
        (Node.readsAll instruction.encoding).contains "imm0" && Results.passes Domain.hasNegative
          (rowDomain instruction (imposedBy (Node.groupsAll instruction.encoding)) "imm0"))
      signedAndFlag = true := by
    decide +kernel
  obtain ⟨set, made, checked⟩ := Results.exists_ok evaluated
  simp only [Bool.and_eq_true, List.any_eq_true, beq_iff_eq] at checked
  obtain ⟨⟨succeed, flagged, known, named⟩, signed, listed, reads, negative⟩ := checked
  obtain ⟨final, ran⟩ := generate_succeeds succeed
  have filled : set.Filled := by
    have found := made
    simp only [signedAndFlag, Results.bind_ok_iff] at found
    obtain ⟨first, one, second, two, added⟩ := found
    exact ⟨[first, second], by simpa using ⟨⟨_, _, _, _, _, _, _, _, one⟩,
      ⟨_, _, _, _, _, _, _, _, two⟩⟩, added⟩
  have sound := definedNames_sound_iff filled ran
  refine ⟨set, final, made, filled, ran, fun identifiers => ?_, fun distinct => ?_⟩
  · obtain ⟨domain, row, below⟩ := Results.exists_ok negative
    have registered : domain ∈ final.registry.domains := by
      obtain ⟨encoded, -⟩ := generate_encodes ran
      obtain ⟨entry, member, rfl⟩ := List.mem_map.mp (encoded.map_fst_encoded ▸ listed)
      obtain ⟨-, same, -, imposed, -, -⟩ := encoded.entry member
      rw [(generate_domains ran).1, List.mem_eraseDups]
      refine List.mem_flatMap.mpr ⟨entry, member, List.mem_map.mpr ⟨("imm0", domain), ?_, rfl⟩⟩
      refine (mem_domainRows ..).mpr ⟨(same _).mpr (by simpa using reads), ?_⟩
      rw [imposed]
      exact row
    have natural := (sound.1.mp identifiers).2 domain registered
    exact absurd below (by simp [natural])
  · exact (sound.2.mp distinct flagged known).2 "rex" (by decide) named

end Generator

end EncoderTables
