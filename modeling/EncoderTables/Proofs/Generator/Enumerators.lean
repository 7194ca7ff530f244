import EncoderTables.Proofs.Domain.Names
import EncoderTables.Proofs.Generator.References
import EncoderTables.Proofs.Instruction.Names

/-!
# Enumerators

The names of enumerators consist of a common leader, a group and a symbol in upper case. But
for the instructions, whose names are given, and the bit masks, whose names are two numbers,
the symbols are those of fixed tables. Counts make up a group of their own.
-/

namespace EncoderTables

namespace Text

/-- The upper case of a text. -/
def upperLetters (text : String) : List Char := text.toList.flatMap upperChar

/-- The upper case of texts one after the other. -/
theorem upperLetters_append (first second : String) :
    upperLetters (first ++ second) = upperLetters first ++ upperLetters second := by
  rw [upperLetters, String.toList_append, List.flatMap_append]
  rfl

/-- Digits are characters of identifiers and have no other upper case. -/
theorem upperChar_digit {c : Char} (digit : c.isDigit = true) :
    upperChar c = [c] ∧ isIdentifierPart c = true := by
  have code := Char.isDigit_iff_toNat.mp digit
  exact of_ascii (P := fun c => c.isDigit = true → upperChar c = [c] ∧ isIdentifierPart c = true)
    (by decide) (code.2.trans_lt (by decide)) digit

/-- The digits of a number are digits. -/
theorem isDigit_of_mem_digits {c : Char} {value : Nat} (member : c ∈ Nat.toDigits 10 value) :
    c.isDigit = true := Nat.isDigit_of_mem_toDigits (by decide) (by decide) member

/-- Digits have no other upper case. -/
theorem flatMap_digits (value : Nat) :
    (Nat.toDigits 10 value).flatMap upperChar = Nat.toDigits 10 value := by
  have each (letters : List Char) (own : ∀ c ∈ letters, upperChar c = [c]) :
      letters.flatMap upperChar = letters := by
    induction letters with
    | nil => rfl
    | cons c rest inductionHypothesis =>
      obtain ⟨first, others⟩ := List.forall_mem_cons.mp own
      rw [List.flatMap_cons, first, inductionHypothesis others]
      rfl
  exact each _ fun c member => (upperChar_digit (isDigit_of_mem_digits member)).1

/-- The upper case of the text of a number. -/
theorem upperLetters_number (value : Nat) :
    upperLetters (toString value) = Nat.toDigits 10 value := by
  have digits : (toString value).toList = Nat.toDigits 10 value := by simp
  rw [upperLetters, digits, flatMap_digits]

end Text

namespace Naming

/-- What all constants of the architecture start with. -/
def constantLeader : List Char := "EVOASM_X64_".toList

/-- What the constants of a group start with. -/
def groupLeader (group : String) : List Char :=
  constantLeader ++ (Text.upperLetters group ++ ['_'])

/-- The symbol of a member, before it is put into upper case. -/
theorem symbol_member (group name : String) :
    symbol (archPath (some group)) name = "evoasm_x64_" ++ (group ++ "_") ++ name := by
  change "_".intercalate ["evoasm", "x64", group, name] = _
  rw [String.intercalate_cons_cons, String.intercalate_cons_cons, String.intercalate_cons_cons,
    String.intercalate_singleton, ← String.toList_inj]
  simp

/-- The letters of the constant of a member. -/
theorem toList_member (group name : String) :
    (member group name).toList = groupLeader group ++ Text.upperLetters name := by
  have leader : Text.upperLetters "evoasm_x64_" = constantLeader := by decide
  have mark : Text.upperLetters "_" = ['_'] := by decide
  rw [member, constant, symbol_member, Text.upper, String.toList_ofList]
  change Text.upperLetters _ = _
  rw [Text.upperLetters_append, Text.upperLetters_append, Text.upperLetters_append, leader, mark]
  rfl

/-- Counts are members of a group of their own. -/
theorem count_eq_member (what : String) : count what = member "n" what := by
  have same : symbol (archPath none) ("n_" ++ what) = symbol (archPath (some "n")) what := by
    rw [symbol_member]
    change "_".intercalate ["evoasm", "x64", "n_" ++ what] = _
    rw [String.intercalate_cons_cons, String.intercalate_cons_cons, String.intercalate_singleton,
      ← String.toList_inj]
    simp
  rw [count, member, constant, constant, same]

end Naming

namespace Code.Enumeration

/-- Later names leave earlier ones. -/
theorem mem_setValue {name other : String} {value : Scalar} {values : List (String × Scalar)} :
    other ∈ (setValue name value values).map (·.1) ↔ other ∈ values.map (·.1) ∨ other = name := by
  induction values with
  | nil => simp [setValue]
  | cons entry rest inductionHypothesis =>
    obtain ⟨first, old⟩ := entry
    simp only [setValue]
    split
    · next same => simp [same, or_comm]
    · simp only [List.map_cons, List.mem_cons, inductionHypothesis, or_assoc]

/-- A name is set only once. -/
theorem nodup_setValue {name : String} {value : Scalar} {values : List (String × Scalar)}
    (distinct : (values.map (·.1)).Nodup) : ((setValue name value values).map (·.1)).Nodup := by
  induction values with
  | nil => simp [setValue]
  | cons entry rest inductionHypothesis =>
    obtain ⟨first, old⟩ := entry
    obtain ⟨new, others⟩ := List.nodup_cons.mp distinct
    simp only [setValue]
    split
    · exact distinct
    · next different =>
      refine List.nodup_cons.mpr ⟨fun member => ?_, inductionHypothesis others⟩
      exact (mem_setValue.mp member).elim new different

/-- An enumeration has the names that it is made of. -/
theorem mem_ofValues {comment : Comment} {name other : String} {values : List (String × Scalar)}
    {isTypedef : Bool} :
    other ∈ (ofValues comment name values isTypedef).values.map (·.1) ↔
      other ∈ values.map (·.1) := by
  induction values using List.reverseRecOn with
  | nil => rfl
  | append_singleton values last inductionHypothesis =>
    rw [ofValues_append, withValue, mem_setValue, inductionHypothesis]
    simp

/-- An enumeration has each name once. -/
theorem nodup_ofValues (comment : Comment) (name : String) (values : List (String × Scalar))
    (isTypedef : Bool) : ((ofValues comment name values isTypedef).values.map (·.1)).Nodup := by
  induction values using List.reverseRecOn with
  | nil => exact List.nodup_nil
  | append_singleton values last inductionHypothesis =>
    rw [ofValues_append, withValue]
    exact nodup_setValue inductionHypothesis

end Code.Enumeration

namespace Generator

/-- The names of the enumerators of each enumeration. -/
def enumeratorLists (set : InstructionSet) : List (List String) :=
  (instructionEnumeration set :: furtherEnumerations set).map fun enumeration =>
    enumeration.values.map (·.1)

/-- The symbols of each enumeration that does not depend on the set, by group. -/
def fixedGroups : List (String × List String) :=
  [("reg", Arch.registerNames ++ ["none"]), ("reg_type", Arch.RegisterType.all.map (·.name)),
   ("operand_type", Operand.Kind.all.map (·.name)),
   ("operand_size", Arch.operandSizes.map toString), ("inst_flag", Arch.instructionFlags),
   ("feature", Arch.features), ("exception", Arch.exceptions), ("param", Arch.parameters),
   ("basic_param", Arch.basicParameters ++ ["none"]), ("param_type", Arch.valueTypes)]

/-- What the enumerations count, but for the flags, which are not counted. -/
def countedSymbols : List (Option String) :=
  [some "insts", some "regs", some "reg_types", some "operand_types", some "operand_sizes", none,
   some "features", some "exceptions", some "params", some "basic_params", some "param_types",
   some "bit_masks"]

/-- The symbols of each enumeration, by group. -/
def symbolGroups (set : InstructionSet) : List (String × List String) :=
  ("inst", set.instructions.map (·.name)) :: (fixedGroups ++ [("bit_mask", bitMaskNames set)])

/-- The constants of the symbols of a group, and of their count. -/
def groupNames (group : String × List String) (counted : Option String) : List String :=
  group.2.map (Naming.member group.1) ++ counted.toList.map (Naming.member "n")

/-- An enumeration has the constants of its symbols, and of their count. -/
theorem mem_countedEnumeration {what group total name : String} {symbols : List String} :
    name ∈ (countedEnumeration what group symbols total).values.map (·.1) ↔
      name ∈ groupNames (group, symbols) (some total) := by
  rw [countedEnumeration, Code.Enumeration.mem_ofValues, Naming.count_eq_member]
  simp [symbolConstants, groupNames, Naming.member]

/-- So has that of the flags. -/
theorem mem_flagEnumeration {what name : String} :
    name ∈ (Code.Enumeration.ofValues .none what flagConstants true).values.map (·.1) ↔
      name ∈ groupNames ("inst_flag", Arch.instructionFlags) none := by
  rw [Code.Enumeration.mem_ofValues, flagConstants, List.map_fst_zip (by decide)]
  simp [groupNames, Naming.instructionFlag]

/-- The enumerators are the constants of the symbols, and of their counts. -/
theorem enumeratorLists_groups (set : InstructionSet) :
    List.Forall₂ (fun names entry => ∀ name, name ∈ names ↔ name ∈ groupNames entry.1 entry.2)
      (enumeratorLists set) ((symbolGroups set).zip countedSymbols) := by
  have counted {what group total : String} {symbols : List String} (name : String) :=
    @mem_countedEnumeration what group total name symbols
  have flags {what : String} (name : String) := @mem_flagEnumeration what name
  exact .cons counted <| .cons counted <| .cons counted <| .cons counted <| .cons counted <|
    .cons flags <| .cons counted <| .cons counted <| .cons counted <| .cons counted <|
    .cons counted <| .cons counted .nil

/-- The names of all enumerators. -/
def enumeratorNames (set : InstructionSet) : List String := (enumeratorLists set).flatten

/-- The groups of symbols, and the counts as a group. -/
def allGroups (set : InstructionSet) : List (String × List String) :=
  ("n", countedSymbols.filterMap id) :: symbolGroups set

/-- The enumerators are the constants of all symbols. -/
theorem mem_enumeratorNames_iff {set : InstructionSet} {name : String} :
    name ∈ enumeratorNames set ↔
      ∃ group ∈ allGroups set, ∃ symbol ∈ group.2, Naming.member group.1 symbol = name := by
  have paired := enumeratorLists_groups set
  have fit : (symbolGroups set).length = countedSymbols.length := rfl
  have groups : ((symbolGroups set).zip countedSymbols).map (·.1) = symbolGroups set :=
    List.map_fst_zip fit.le
  have totals : ((symbolGroups set).zip countedSymbols).map (·.2) = countedSymbols :=
    List.map_snd_zip fit.ge
  have enumerated {entry : (String × List String) × Option String}
      (listed : entry ∈ (symbolGroups set).zip countedSymbols)
      (own : name ∈ groupNames entry.1 entry.2) : name ∈ enumeratorNames set := by
    obtain ⟨names, inside, same⟩ := exists_partner paired.flip listed
    exact List.mem_flatten.mpr ⟨names, inside, (same name).mpr own⟩
  constructor
  · intro member
    obtain ⟨names, inside, own⟩ := List.mem_flatten.mp member
    obtain ⟨⟨group, total⟩, listed, same⟩ := exists_partner paired inside
    obtain ⟨grouped, counted⟩ := List.of_mem_zip listed
    rcases List.mem_append.mp ((same name).mp own) with member | count
    · obtain ⟨symbol, known, rfl⟩ := List.mem_map.mp member
      exact ⟨group, List.mem_cons_of_mem _ grouped, symbol, known, rfl⟩
    · obtain ⟨what, known, rfl⟩ := List.mem_map.mp count
      obtain rfl := Option.mem_toList.mp known
      exact ⟨_, List.mem_cons_self, what, List.mem_filterMap.mpr ⟨_, counted, rfl⟩, rfl⟩
  · rintro ⟨group, grouped, symbol, known, rfl⟩
    rcases List.mem_cons.mp grouped with rfl | later
    · obtain ⟨total, counted, found⟩ := List.mem_filterMap.mp known
      obtain ⟨entry, listed, same⟩ := List.mem_map.mp (totals.symm ▸ counted)
      obtain rfl : total = some symbol := found
      refine enumerated listed (List.mem_append_right _ ?_)
      rw [same]
      exact List.mem_singleton_self _
    · obtain ⟨entry, listed, rfl⟩ := List.mem_map.mp (groups.symm ▸ later)
      exact enumerated listed (List.mem_append_left _ (List.mem_map_of_mem known))

/-- The groups are those of the instructions, of fixed tables, of bit masks and of counts. -/
theorem mem_allGroups {set : InstructionSet} {group : String × List String} :
    group ∈ allGroups set ↔ group = ("inst", set.instructions.map (·.name)) ∨
      group ∈ ("n", countedSymbols.filterMap id) :: fixedGroups ∨
      group = ("bit_mask", bitMaskNames set) := by
  simp only [allGroups, symbolGroups, List.mem_cons, List.mem_append, List.not_mem_nil, or_false]
  exact or_left_comm.trans (or_congr_right (or_assoc.symm))

/-- Fixed symbols are characters of identifiers in upper case. -/
theorem parts_fixed : ∀ group ∈ ("n", countedSymbols.filterMap id) :: fixedGroups,
    ∀ symbol ∈ group.2, ∀ c ∈ Text.upperLetters symbol, Text.isIdentifierPart c = true := by
  have checked : ∀ group ∈ ("n", countedSymbols.filterMap id) :: fixedGroups,
      ∀ symbol ∈ group.2, (Text.upperLetters symbol).all Text.isIdentifierPart = true := by
    decide +kernel
  exact fun group grouped symbol known => List.all_eq_true.mp (checked group grouped symbol known)

/-- The names of bit masks are made of the digits of their bounds. -/
theorem upperLetters_rangeName (range : Operand.BitRange) :
    Text.upperLetters (Naming.rangeName (boundsOf range)) =
      Nat.toDigits 10 range.low ++ '_' :: Nat.toDigits 10 range.high := by
  have natural (value : Nat) : (value : Int).repr.toList = Nat.toDigits 10 value := by
    rw [toList_repr_int, if_neg (by omega), Int.natAbs_natCast]
  have letters : (Naming.rangeName (boundsOf range)).toList =
      Nat.toDigits 10 range.low ++ '_' :: Nat.toDigits 10 range.high := by
    simp [Naming.rangeName, boundsOf, natural]
  have mark : Text.upperChar '_' = ['_'] := by decide
  rw [Text.upperLetters, letters, List.flatMap_append, List.flatMap_cons, Text.flatMap_digits,
    Text.flatMap_digits, mark]
  rfl

/-- The names of bit masks are characters of identifiers. -/
theorem parts_bitMask {set : InstructionSet} {mask : String} (member : mask ∈ bitMaskNames set) :
    ∀ c ∈ Text.upperLetters mask, Text.isIdentifierPart c = true := by
  have digits {c : Char} {value : Nat} (inside : c ∈ Nat.toDigits 10 value) :=
    (Text.upperChar_digit (Text.isDigit_of_mem_digits inside)).2
  rcases List.mem_append.mp member with ranged | all
  · obtain ⟨range, -, rfl⟩ := List.mem_map.mp ranged
    rw [upperLetters_rangeName, List.forall_mem_append, List.forall_mem_cons]
    exact ⟨fun c => digits, by decide, fun c => digits⟩
  · obtain rfl := List.mem_singleton.mp all
    exact List.all_eq_true.mp (by decide)

/-- Symbols other than the names of instructions are characters of identifiers in upper case. -/
theorem parts_symbol {set : InstructionSet} {group : String × List String}
    (grouped : group ∈ allGroups set) (other : group.1 ≠ "inst") {symbol : String}
    (known : symbol ∈ group.2) :
    ∀ c ∈ Text.upperLetters symbol, Text.isIdentifierPart c = true := by
  rcases mem_allGroups.mp grouped with rfl | fixed | rfl
  · exact absurd rfl other
  · exact parts_fixed group fixed symbol known
  · exact parts_bitMask known

/-- The leaders of groups are characters of identifiers. -/
theorem parts_groupLeader {set : InstructionSet} {group : String × List String}
    (grouped : group ∈ allGroups set) :
    ∀ c ∈ Naming.groupLeader group.1, Text.isIdentifierPart c = true := by
  have names : ∀ name ∈ (allGroups set).map (·.1), ∀ c ∈ Naming.groupLeader name,
      Text.isIdentifierPart c = true := by
    have checked : ∀ name ∈ (allGroups .empty).map (·.1),
        (Naming.groupLeader name).all Text.isIdentifierPart = true := by
      decide
    exact fun name listed => List.all_eq_true.mp (checked name listed)
  exact names _ (List.mem_map_of_mem grouped)

/-- The symbols of the instructions are their names. -/
theorem symbols_inst {set : InstructionSet} {group : String × List String}
    (grouped : group ∈ allGroups set) (own : group.1 = "inst") :
    group.2 = set.instructions.map (·.name) := by
  rcases mem_allGroups.mp grouped with rfl | fixed | rfl
  · rfl
  · have apart : ∀ entry ∈ ("n", countedSymbols.filterMap id) :: fixedGroups,
        entry.1 ≠ "inst" := by
      decide
    exact absurd own (apart group fixed)
  · exact absurd own (by simp)

/-- The constant of a symbol is one word, with the leader of its group in front. -/
theorem words_member {set : InstructionSet} (filled : set.Filled)
    {group : String × List String} (grouped : group ∈ allGroups set) {symbol : String}
    (known : symbol ∈ group.2) : ∃ rest : List Char,
      Text.words (Naming.member group.1 symbol).toList = [Naming.groupLeader group.1 ++ rest] ∧
      (group.1 ≠ "inst" → rest = Text.upperLetters symbol) := by
  by_cases own : group.1 = "inst"
  · obtain ⟨instruction, listed, rfl⟩ := List.mem_map.mp (symbols_inst grouped own ▸ known)
    have valid := (filled.sound listed).1
    obtain ⟨core, short⟩ := Instruction.exists_core valid
    have leader : Naming.groupLeader "inst" = "EVOASM_X64_INST_".toList := by decide
    refine ⟨core.map Char.toUpper, ?_, fun other => absurd own other⟩
    rw [own, leader]
    exact Naming.words_instruction valid short
  · refine ⟨_, ?_, fun _ => rfl⟩
    rw [Naming.toList_member]
    exact Text.words_of_parts (List.forall_mem_append.mpr
      ⟨parts_groupLeader grouped, parts_symbol grouped own known⟩) (by simp [Naming.groupLeader])

/-- The names of the groups. -/
def groupTitles : List String :=
  ["n", "inst", "reg", "reg_type", "operand_type", "operand_size", "inst_flag", "feature",
   "exception", "param", "basic_param", "param_type", "bit_mask"]

/-- The groups have these names, one each. -/
theorem titles_allGroups (set : InstructionSet) : (allGroups set).map (·.1) = groupTitles := rfl

/-- The groups whose leaders go on to those of other groups, and by what. -/
def nestedGroups : List (String × String × String) :=
  [("inst", "inst_flag", "flag_"), ("reg", "reg_type", "type_"), ("param", "param_type", "type_")]

/-- The leaders of nested groups go on to each other. -/
theorem leader_nested : ∀ entry ∈ nestedGroups, Naming.groupLeader entry.2.1 =
    Naming.groupLeader entry.1 ++ Text.upperLetters entry.2.2 := by
  decide

/-- The leaders of all other groups are apart. -/
theorem leaders_nested_or_apart : groupTitles.Pairwise fun first second =>
    (∃ entry ∈ nestedGroups, (entry.1, entry.2.1) = (first, second)) ∨
      ¬Naming.groupLeader first <+: Naming.groupLeader second ∧
        ¬Naming.groupLeader second <+: Naming.groupLeader first := by
  decide

/-- No constants of two groups are the same. -/
def Clear (first second : String × List String) : Prop :=
  ∀ one ∈ first.2, ∀ two ∈ second.2, Naming.member first.1 one ≠ Naming.member second.1 two

/-- Groups whose leaders are apart are clear of each other. -/
theorem Clear.of_apart {first second : String × List String}
    (apart : ¬Naming.groupLeader first.1 <+: Naming.groupLeader second.1 ∧
      ¬Naming.groupLeader second.1 <+: Naming.groupLeader first.1) : Clear first second := by
  intro one _ two _ same
  have letters := congrArg String.toList same
  rw [Naming.toList_member, Naming.toList_member] at letters
  rcases List.prefix_or_prefix_of_prefix (List.prefix_append _ _)
    (letters ▸ List.prefix_append _ _) with latter | former
  · exact apart.2 latter
  · exact apart.1 former

/-- Constants of nested groups are the same when the symbols are, with what lies between the
leaders. -/
theorem upperLetters_of_nested {entry : String × String × String} (nested : entry ∈ nestedGroups)
    {one two : String} (same : Naming.member entry.1 one = Naming.member entry.2.1 two) :
    Text.upperLetters one = Text.upperLetters (entry.2.2 ++ two) := by
  have letters := congrArg String.toList same
  rw [Naming.toList_member, Naming.toList_member, leader_nested entry nested, List.append_assoc,
    List.append_cancel_left_eq] at letters
  rw [letters, Text.upperLetters_append]

/-- The symbols of registers and parameters do not go on like those of their types. -/
theorem symbols_of_types : ∀ group ∈ ("n", countedSymbols.filterMap id) :: fixedGroups,
    group.1 = "reg" ∨ group.1 = "param" → ∀ symbol ∈ group.2,
      ¬Text.upperLetters "type_" <+: Text.upperLetters symbol := by
  decide

/-- The names of flags are plain. -/
theorem isPlain_of_flag : ∀ flag ∈ Arch.instructionFlags, ∀ c ∈ ("flag_" ++ flag).toList,
    Text.IsPlain c := by
  have checked : ∀ flag ∈ Arch.instructionFlags,
      ("flag_" ++ flag).toList.all (fun c => decide (Text.IsPlain c)) = true := by
    decide
  exact fun flag listed c inside =>
    of_decide_eq_true (List.all_eq_true.mp (checked flag listed) c inside)

/-- The groups are clear of each other when no instruction is named like a flag. -/
theorem groups_clear {set : InstructionSet} (filled : set.Filled)
    (free : ∀ flag ∈ Arch.instructionFlags, "flag_" ++ flag ∉ set.instructions.map (·.name)) :
    (allGroups set).Pairwise Clear := by
  have apart := titles_allGroups set ▸ leaders_nested_or_apart
  rw [List.pairwise_map] at apart
  refine apart.imp_of_mem fun {first second} grouped other leaders => ?_
  refine leaders.elim ?_ Clear.of_apart
  rintro ⟨entry, nested, titles⟩ one known two listed same
  obtain ⟨former, latter⟩ := Prod.mk.inj titles
  have letters := upperLetters_of_nested nested (former ▸ latter ▸ same)
  simp only [nestedGroups, List.mem_cons, List.not_mem_nil, or_false] at nested
  rcases nested with rfl | types
  · have flags : second.2 = Arch.instructionFlags := by
      rcases mem_allGroups.mp other with rfl | fixed | rfl
      · exact absurd latter (by simp)
      · have titled : ∀ group ∈ ("n", countedSymbols.filterMap id) :: fixedGroups,
            group.1 = "inst_flag" → group.2 = Arch.instructionFlags := by
          decide
        exact titled second fixed latter.symm
      · exact absurd latter (by simp)
    rw [flags] at listed
    rw [symbols_inst grouped former.symm] at known
    obtain ⟨instruction, member, rfl⟩ := List.mem_map.mp known
    have plain := Instruction.isPlain_of_isValidName (filled.sound member).1
    have flagged := isPlain_of_flag two listed
    rw [Text.upperLetters, Text.upperLetters, Text.flatMap_upperChar plain,
      Text.flatMap_upperChar flagged] at letters
    have equal := String.toList_inj.mp (Text.eq_of_map_toUpper plain flagged letters)
    exact free two listed (equal ▸ known)
  · have typed : entry.2.2 = "type_" ∧ (first.1 = "reg" ∨ first.1 = "param") := by
      rcases types with rfl | rfl
      · exact ⟨rfl, Or.inl former.symm⟩
      · exact ⟨rfl, Or.inr former.symm⟩
    have leads : Text.upperLetters "type_" <+: Text.upperLetters one := by
      rw [letters, typed.1, Text.upperLetters_append]
      exact List.prefix_append _ _
    rcases mem_allGroups.mp grouped with rfl | fixed | rfl
    · exact absurd typed.2 (by simp)
    · exact symbols_of_types first fixed typed.2 one known leads
    · exact absurd typed.2 (by simp)

/-- The names of counts differ in upper case as well. -/
theorem upperLetters_counted : ∀ one ∈ countedSymbols.filterMap id,
    ∀ two ∈ countedSymbols.filterMap id, Text.upperLetters one = Text.upperLetters two →
      one = two := by
  decide

/-- When groups are clear of each other, no name is in two enumerations. -/
theorem enumerations_apart {set : InstructionSet} (clear : (allGroups set).Pairwise Clear) :
    ((symbolGroups set).zip countedSymbols).Pairwise fun first second =>
      List.Disjoint (groupNames first.1 first.2) (groupNames second.1 second.2) := by
  obtain ⟨counts, groups⟩ := List.pairwise_cons.mp clear
  have fit : (symbolGroups set).length = countedSymbols.length := rfl
  have apart : ((symbolGroups set).zip countedSymbols).Pairwise fun first second =>
      Clear first.1 second.1 := by
    rw [← List.pairwise_map, List.map_fst_zip fit.le]
    exact groups
  have totals : ((symbolGroups set).zip countedSymbols).Pairwise fun first second =>
      first.2 = second.2 → first.2 = none := by
    have distinct : countedSymbols.Pairwise fun first second => first = second → first = none := by
      decide
    have listed := List.pairwise_map (f := Prod.snd) (l := (symbolGroups set).zip countedSymbols)
      (R := fun first second => first = second → first = none)
    rw [List.map_snd_zip fit.ge] at listed
    exact listed.mp distinct
  refine (apart.and totals).imp_of_mem fun {first second} one two ⟨clear, total⟩ name => ?_
  obtain ⟨grouped, counted⟩ := List.of_mem_zip one
  obtain ⟨other, more⟩ := List.of_mem_zip two
  have inside {count : String} {entry : Option String} (among : entry ∈ countedSymbols)
      (found : count ∈ entry.toList) : count ∈ countedSymbols.filterMap id :=
    List.mem_filterMap.mpr ⟨entry, among, Option.mem_toList.mp found⟩
  intro former latter
  rcases List.mem_append.mp former with symbol | count <;>
    rcases List.mem_append.mp latter with symbol' | count'
  · obtain ⟨one, known, rfl⟩ := List.mem_map.mp symbol
    obtain ⟨two, listed, same⟩ := List.mem_map.mp symbol'
    exact clear one known two listed same.symm
  · obtain ⟨one, known, rfl⟩ := List.mem_map.mp symbol
    obtain ⟨two, listed, same⟩ := List.mem_map.mp count'
    exact counts first.1 grouped two (inside more listed) one known same
  · obtain ⟨one, known, rfl⟩ := List.mem_map.mp count
    obtain ⟨two, listed, same⟩ := List.mem_map.mp symbol'
    exact counts second.1 other one (inside counted known) two listed same.symm
  · obtain ⟨one, known, rfl⟩ := List.mem_map.mp count
    obtain ⟨two, listed, same⟩ := List.mem_map.mp count'
    have letters := congrArg String.toList same
    rw [Naming.toList_member, Naming.toList_member, List.append_cancel_left_eq] at letters
    obtain rfl := upperLetters_counted two (inside more listed) one (inside counted known) letters
    have equal : first.2 = second.2 :=
      (Option.mem_toList.mp known).trans (Option.mem_toList.mp listed).symm
    rw [total equal] at known
    exact absurd known List.not_mem_nil

/-- What holds of any two partners in their order holds of any two members in theirs. -/
theorem pairwise_of_partners {α β : Type} {related : α → β → Prop} {one : α → α → Prop}
    {two : β → β → Prop} {firsts : List α} {seconds : List β}
    (paired : List.Forall₂ related firsts seconds)
    (carried : ∀ {a b c d}, related a c → related b d → two c d → one a b)
    (pairwise : seconds.Pairwise two) : firsts.Pairwise one := by
  induction paired with
  | nil => exact List.Pairwise.nil
  | cons own rest inductionHypothesis =>
    obtain ⟨front, later⟩ := List.pairwise_cons.mp pairwise
    refine List.pairwise_cons.mpr ⟨fun other member => ?_, inductionHypothesis later⟩
    obtain ⟨partner, listed, same⟩ := exists_partner rest member
    exact carried own same (front partner listed)

/-- No enumerator is declared twice exactly when no instruction is named like a flag. -/
theorem nodup_enumeratorNames_iff {set : InstructionSet} (filled : set.Filled) :
    (enumeratorNames set).Nodup ↔
      ∀ flag ∈ Arch.instructionFlags, "flag_" ++ flag ∉ set.instructions.map (·.name) := by
  constructor
  · intro distinct flag known named
    have split : enumeratorNames set =
        (instructionEnumeration set).values.map (·.1) ++
          ((furtherEnumerations set).map fun enumeration =>
            enumeration.values.map (·.1)).flatten := rfl
    rw [split, List.nodup_append] at distinct
    have same : Naming.member "inst" ("flag_" ++ flag) = Naming.member "inst_flag" flag := by
      have leader := leader_nested ("inst", "inst_flag", "flag_") List.mem_cons_self
      rw [← String.toList_inj, Naming.toList_member, Naming.toList_member, leader,
        Text.upperLetters_append, List.append_assoc]
    have instruction : Naming.member "inst" ("flag_" ++ flag) ∈
        (instructionEnumeration set).values.map (·.1) :=
      mem_countedEnumeration.mpr (List.mem_append_left _ (List.mem_map_of_mem named))
    have enumeration : Code.Enumeration.ofValues .none (Naming.enumType "inst_flag")
        flagConstants true ∈ furtherEnumerations set := by
      simp [furtherEnumerations]
    have flagged : Naming.member "inst_flag" flag ∈
        ((furtherEnumerations set).map fun enumeration =>
          enumeration.values.map (·.1)).flatten :=
      List.mem_flatten.mpr ⟨_, List.mem_map_of_mem enumeration,
        mem_flagEnumeration.mpr (List.mem_append_left _ (List.mem_map_of_mem known))⟩
    exact distinct.2.2 _ instruction _ flagged same
  · intro free
    refine List.nodup_flatten.mpr ⟨?_, ?_⟩
    · intro names listed
      obtain ⟨enumeration, member, rfl⟩ := List.mem_map.mp listed
      simp only [instructionEnumeration, furtherEnumerations, List.mem_cons, List.not_mem_nil,
        or_false] at member
      rcases member with rfl | rfl | rfl | rfl | rfl | rfl | rfl | rfl | rfl | rfl | rfl | rfl <;>
        exact Code.Enumeration.nodup_ofValues ..
    · refine pairwise_of_partners (enumeratorLists_groups set) ?_
        (enumerations_apart (groups_clear filled free))
      intro names others entry entry' one two apart name member other
      exact apart ((one name).mp member) ((two name).mp other)

end Generator

end EncoderTables
