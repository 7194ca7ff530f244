import EncoderTables.Operand.StatusRegister
import Mathlib.Data.List.Forall2

/-!
# Status bits in operand lists

The tracked bits of a status register are gathered into one operand: the first one of the
register's name or, when there is none, a new one behind the others. It has the access modes of
its own and those of the bits, and it names the bits that are read, written and left undefined.
All other operands stay as they are and where they are. So only the ordinary operands and the bits
of each register count, in their order, and gathering a second time changes nothing.
-/

namespace EncoderTables.Operand

/-- The status registers. -/
inductive StatusRegister where
  | flags | vectorStatus
  deriving DecidableEq, Repr

namespace StatusRegister

/-- The status registers in the order in which their operands are added. -/
def all : List StatusRegister := [flags, vectorStatus]

/-- The name of a status register. -/
def name : StatusRegister → String
  | flags => "RFLAGS"
  | vectorStatus => "MXCSR"

/-- The names of the bits of a status register. -/
def bitNames : StatusRegister → List String
  | flags => Arch.flagsBits
  | vectorStatus => Arch.vectorStatusBits

/-- The names of the bits of a status register that are not tracked. -/
def ignoredNames : StatusRegister → List String
  | flags => Arch.ignoredFlagsBits
  | vectorStatus => Arch.ignoredVectorStatusBits

/-- The tracked bits of a status register in an operand list. -/
def bits (register : StatusRegister) (entries : List Entry) : List Entry :=
  entries.filter fun entry =>
    entry.name ∈ register.bitNames ∧ entry.name ∉ register.ignoredNames

end StatusRegister

/-- The operands of a list that are no status bits. -/
def ordinary (entries : List Entry) : List Entry :=
  entries.filter fun entry => ∀ register ∈ StatusRegister.all, entry.name ∉ register.bitNames

/-- An operand into which bits have been gathered: it has the given access modes and those of the
bits, in canonical order, and names the bits by their use. -/
structure Gathers (own : List Access) (bits : List Entry) (entry : Entry) : Prop where
  canonical : entry.flags.Sublist Access.all
  union : ∀ mode, mode ∈ entry.flags ↔ mode ∈ own ∨ ∃ bit ∈ bits, mode ∈ bit.flags
  status : entry.status = some
    { read := (bits.filter (.read ∈ ·.flags)).map (·.name)
      written := (bits.filter fun bit => .written ∈ bit.flags ∨ .conditional ∈ bit.flags).map (·.name)
      undefined := (bits.filter (.undefined ∈ ·.flags)).map (·.name) }

/-- The operand at a position is the first of a name. -/
def IsFirst (name : String) (operands : List Entry) (position : Nat) : Prop :=
  (operands[position]?.map (·.name) = some name) ∧
    name ∉ (operands.map (·.name)).take position

/-- The operand at a position is the first of the name of a register with tracked bits. -/
def TakesBits (entries : List Entry) (position : Nat) (register : StatusRegister) : Prop :=
  register.bits entries ≠ [] ∧ IsFirst register.name (ordinary entries) position

/-- A register with tracked bits and without an operand of its name. -/
def IsAdded (entries : List Entry) (register : StatusRegister) : Prop :=
  register.bits entries ≠ [] ∧ register.name ∉ (ordinary entries).map (·.name)

instance (entries : List Entry) (register : StatusRegister) : Decidable (IsAdded entries register) :=
  inferInstanceAs (Decidable (_ ∧ _))

/-- Every mode is one of the modes in canonical order. -/
theorem Access.mem_all (mode : Access) : mode ∈ Access.all := by cases mode <;> decide

/-- The tracked bits of the flags register. -/
theorem bits_flags (entries : List Entry) :
    entries.filter Entry.isFlagsBit = StatusRegister.flags.bits entries := by
  have apart : ∀ name ∈ Arch.flagsBits, name ∉ Arch.ignoredVectorStatusBits := by decide
  refine List.filter_congr fun entry _ => ?_
  rw [Bool.eq_iff_iff, decide_eq_true_iff]
  simp only [Entry.isFlagsBit, Arch.isIgnoredBit, StatusRegister.bitNames,
    StatusRegister.ignoredNames, List.contains_eq_mem, Bool.and_eq_true, Bool.not_eq_true',
    Bool.or_eq_false_iff, decide_eq_true_eq, decide_eq_false_iff_not]
  constructor
  · exact fun ⟨⟨tracked, _⟩, member⟩ => ⟨member, tracked⟩
  · exact fun ⟨member, tracked⟩ => ⟨⟨tracked, apart _ member⟩, member⟩

/-- The tracked bits of the vector status register. -/
theorem bits_vectorStatus (entries : List Entry) :
    entries.filter Entry.isVectorStatusBit = StatusRegister.vectorStatus.bits entries := by
  have apart : ∀ name ∈ Arch.vectorStatusBits, name ∉ Arch.ignoredFlagsBits ∧ name ∉ Arch.flagsBits := by
    decide
  refine List.filter_congr fun entry _ => ?_
  rw [Bool.eq_iff_iff, decide_eq_true_iff]
  simp only [Entry.isVectorStatusBit, Arch.isIgnoredBit, StatusRegister.bitNames,
    StatusRegister.ignoredNames, List.contains_eq_mem, Bool.and_eq_true, Bool.not_eq_true',
    Bool.or_eq_false_iff, decide_eq_true_eq, decide_eq_false_iff_not]
  constructor
  · exact fun ⟨⟨⟨_, tracked⟩, _⟩, member⟩ => ⟨member, tracked⟩
  · exact fun ⟨member, tracked⟩ => ⟨⟨⟨(apart _ member).1, tracked⟩, (apart _ member).2⟩, member⟩

/-- Ignored bits are bits of a register. -/
theorem mem_bitNames_of_ignored (register : StatusRegister) :
    ∀ name ∈ register.ignoredNames, name ∈ register.bitNames := by
  cases register <;> decide

/-- The operands that are no status bits. -/
theorem ordinary_eq (entries : List Entry) : entries.filter Entry.isOrdinary = ordinary entries := by
  refine List.filter_congr fun entry _ => ?_
  rw [Bool.eq_iff_iff]
  simp only [Entry.isOrdinary, Arch.isIgnoredBit, StatusRegister.all, List.contains_eq_mem,
    Bool.and_eq_true, Bool.not_eq_true', Bool.or_eq_false_iff, decide_eq_true_eq,
    decide_eq_false_iff_not, List.forall_mem_cons, List.not_mem_nil, false_imp_iff, implies_true,
    and_true]
  constructor
  · exact fun ⟨⟨_, noFlag⟩, noStatus⟩ => ⟨noFlag, noStatus⟩
  · exact fun ⟨noFlag, noStatus⟩ =>
      ⟨⟨⟨fun ignored => noFlag (mem_bitNames_of_ignored .flags _ ignored),
        fun ignored => noStatus (mem_bitNames_of_ignored .vectorStatus _ ignored)⟩, noFlag⟩, noStatus⟩

/-- Gathering goes through the registers one after the other. -/
theorem gatherStatus_eq (entries : List Entry) : gatherStatus entries =
    gather "MXCSR" (StatusRegister.vectorStatus.bits entries)
      (gather "RFLAGS" (StatusRegister.flags.bits entries) (ordinary entries)) := by
  rw [gatherStatus, bits_flags, bits_vectorStatus, ordinary_eq]

/-- The use of bits by name. -/
theorem statusUse_eq (bits : List Entry) : statusUse bits =
    { read := (bits.filter (.read ∈ ·.flags)).map (·.name)
      written := (bits.filter fun bit => .written ∈ bit.flags ∨ .conditional ∈ bit.flags).map (·.name)
      undefined := (bits.filter (.undefined ∈ ·.flags)).map (·.name) } := by
  simp [statusUse, List.contains_eq_mem]

/-- A mode is gathered when some bit has it. -/
theorem mem_gatheredFlags {bits : List Entry} {mode : Access} :
    mode ∈ gatheredFlags bits ↔ ∃ bit ∈ bits, mode ∈ bit.flags := by
  simp [gatheredFlags, Access.mem_all, List.contains_eq_mem]

/-- A new operand gathers the bits alone. -/
theorem composite_gathers (name : String) (bits : List Entry) :
    Gathers [] bits (composite name bits) where
  canonical := List.filter_sublist
  union mode := by simp [composite, mem_gatheredFlags]
  status := congrArg some (statusUse_eq bits)

/-- An operand that takes bits over gathers them with its own access modes. -/
theorem absorb_gathers (entry : Entry) (bits : List Entry) :
    Gathers entry.flags bits (entry.absorb bits) where
  canonical := List.filter_sublist
  union mode := by
    simp only [Entry.absorb, List.mem_filter, Access.mem_all, true_and, Bool.or_eq_true,
      List.contains_iff_mem, mem_gatheredFlags]
  status := congrArg some (statusUse_eq bits)

/-- A change of the first operand of a name changes the one at the first position of the name. -/
theorem getElem?_changeFirst (name : String) (change : Entry → Entry) {operands : List Entry}
    {position : Nat} {operand : Entry} (found : operands[position]? = some operand) :
    (IsFirst name operands position →
      (changeFirst name change operands)[position]? = some (change operand)) ∧
    (¬ IsFirst name operands position →
      (changeFirst name change operands)[position]? = some operand) := by
  induction operands generalizing position with
  | nil => cases found
  | cons first rest inductionHypothesis =>
    rw [changeFirst]
    by_cases own : first.name = name
    · rw [if_pos own]
      cases position with
      | zero =>
        obtain rfl : first = operand := by simpa using found
        simp [IsFirst, own]
      | succ position =>
        have later : rest[position]? = some operand := by simpa using found
        simp [IsFirst, own, later]
    · rw [if_neg own]
      cases position with
      | zero =>
        obtain rfl : first = operand := by simpa using found
        simp [IsFirst, own]
      | succ position =>
        have later : rest[position]? = some operand := by simpa using found
        have behind : IsFirst name (first :: rest) (position + 1) ↔ IsFirst name rest position := by
          simp [IsFirst, Ne.symm own]
        rw [behind, List.getElem?_cons_succ]
        exact inductionHypothesis later

/-- A change that keeps names keeps those of all operands. -/
theorem names_changeFirst (name : String) (change : Entry → Entry)
    (keeps : ∀ entry, (change entry).name = entry.name) (operands : List Entry) :
    (changeFirst name change operands).map (·.name) = operands.map (·.name) := by
  induction operands with
  | nil => rfl
  | cons first rest inductionHypothesis =>
    rw [changeFirst]
    split
    · simp [keeps]
    · simp [inductionHypothesis]

/-- Operands of other names behind the list are not changed. -/
theorem changeFirst_append {name : String} (change : Entry → Entry) {second : List Entry}
    (others : ∀ entry ∈ second, entry.name ≠ name) (first : List Entry) :
    changeFirst name change (first ++ second) = changeFirst name change first ++ second := by
  induction first with
  | nil =>
    induction second with
    | nil => rfl
    | cons entry rest inductionHypothesis =>
      obtain ⟨own, later⟩ := List.forall_mem_cons.mp others
      have kept : changeFirst name change rest = rest := inductionHypothesis later
      rw [changeFirst, List.nil_append, changeFirst, if_neg own, kept]
  | cons entry rest inductionHypothesis =>
    rw [List.cons_append, changeFirst, changeFirst]
    split
    · rfl
    · rw [inductionHypothesis, List.cons_append]

/-- The operands with the bits of a register in the first one of its name, if there are bits. -/
def takeOver (register : StatusRegister) (bits operands : List Entry) : List Entry :=
  if bits = [] then operands else changeFirst register.name (·.absorb bits) operands

/-- Bits that are taken over change no name. -/
theorem names_takeOver (register : StatusRegister) (bits operands : List Entry) :
    (takeOver register bits operands).map (·.name) = operands.map (·.name) := by
  unfold takeOver
  split
  · rfl
  · exact names_changeFirst register.name (·.absorb bits) (fun _ => rfl) operands

/-- Bits are taken over by an operand, or there is a new operand for them. -/
theorem gather_eq (register : StatusRegister) (bits operands : List Entry) :
    gather register.name bits operands = takeOver register bits operands ++
      if bits ≠ [] ∧ register.name ∉ operands.map (·.name) then [composite register.name bits]
        else [] := by
  unfold gather takeOver
  by_cases none : bits = []
  · simp [none]
  · rw [if_neg (by simpa using none), if_neg none]
    by_cases listed : register.name ∈ operands.map (·.name)
    · have known : operands.any (·.name == register.name) = true := by simpa using listed
      rw [if_pos known, if_neg (by simp [listed]), List.append_nil]
    · have unknown : ¬ operands.any (·.name == register.name) = true := by simpa using listed
      have others : ∀ entry ∈ operands, entry.name ≠ register.name := fun entry member same =>
        listed (same ▸ List.mem_map_of_mem member)
      have same := changeFirst_append (·.absorb bits) others []
      rw [List.nil_append] at same
      rw [if_neg unknown, if_pos ⟨none, listed⟩, same]
      rfl

/-- Operands of other names behind the list take no bits over. -/
theorem takeOver_append {register : StatusRegister} (bits first : List Entry) {second : List Entry}
    (others : ∀ entry ∈ second, entry.name ≠ register.name) :
    takeOver register bits (first ++ second) = takeOver register bits first ++ second := by
  unfold takeOver
  split
  · rfl
  · exact changeFirst_append _ others first

/-- The new operand of a register, if it needs one. -/
def newOperand (entries : List Entry) (register : StatusRegister) : List Entry :=
  if IsAdded entries register then [composite register.name (register.bits entries)] else []

/-- The new operands, in the order of the registers. -/
theorem map_composite (entries : List Entry) :
    ((StatusRegister.all.filter (IsAdded entries)).map fun register =>
      composite register.name (register.bits entries)) =
    newOperand entries .flags ++ newOperand entries .vectorStatus := by
  unfold newOperand StatusRegister.all
  by_cases first : IsAdded entries .flags <;> by_cases second : IsAdded entries .vectorStatus <;>
    simp [first, second]

/-- The ordinary operands of a list with the bits they have taken over. -/
def settled (entries : List Entry) : List Entry :=
  takeOver .vectorStatus (StatusRegister.vectorStatus.bits entries)
    (takeOver .flags (StatusRegister.flags.bits entries) (ordinary entries))

/-- Settled operands keep their names. -/
theorem names_settled (entries : List Entry) :
    (settled entries).map (·.name) = (ordinary entries).map (·.name) :=
  (names_takeOver _ _ _).trans (names_takeOver _ _ _)

/-- Gathering leaves the ordinary operands with what they have taken over, and new operands
behind them. -/
theorem gatherStatus_parts (entries : List Entry) : gatherStatus entries =
    settled entries ++ (StatusRegister.all.filter (IsAdded entries)).map fun register =>
      composite register.name (register.bits entries) := by
  have others : ∀ entry ∈ newOperand entries .flags, entry.name ≠ StatusRegister.vectorStatus.name := by
    unfold newOperand
    split
    · simp [composite, StatusRegister.name]
    · simp
  have flagsFirst : gather "RFLAGS" (StatusRegister.flags.bits entries) (ordinary entries) =
      takeOver .flags (StatusRegister.flags.bits entries) (ordinary entries) ++
        newOperand entries .flags :=
    gather_eq .flags _ _
  have statusNext := gather_eq .vectorStatus (StatusRegister.vectorStatus.bits entries)
    (takeOver .flags (StatusRegister.flags.bits entries) (ordinary entries) ++
      newOperand entries .flags)
  have listed : StatusRegister.vectorStatus.name ∉
        (takeOver .flags (StatusRegister.flags.bits entries) (ordinary entries) ++
          newOperand entries .flags).map (·.name) ↔
      StatusRegister.vectorStatus.name ∉ (ordinary entries).map (·.name) := by
    have absent : StatusRegister.vectorStatus.name ∉ (newOperand entries .flags).map (·.name) := by
      simpa using others
    simp only [List.map_append, names_takeOver, List.mem_append, not_or, absent, not_false_eq_true,
      and_true]
  simp only [listed, takeOver_append _ _ others] at statusNext
  rw [gatherStatus_eq, flagsFirst, map_composite, ← List.append_assoc]
  exact statusNext

/-- What an operand of a list becomes when it takes over bits of a register. -/
theorem getElem?_takeOver (register : StatusRegister) (bits : List Entry) {operands : List Entry}
    {position : Nat} {operand : Entry} (found : operands[position]? = some operand) :
    (bits ≠ [] ∧ IsFirst register.name operands position →
      (takeOver register bits operands)[position]? = some (operand.absorb bits)) ∧
    (¬ (bits ≠ [] ∧ IsFirst register.name operands position) →
      (takeOver register bits operands)[position]? = some operand) := by
  unfold takeOver
  by_cases empty : bits = []
  · simp [empty, found]
  · have changed := getElem?_changeFirst register.name (·.absorb bits) found
    simpa [empty] using changed

/-- Only the names say which operand is the first of a name. -/
theorem isFirst_congr (name : String) {first second : List Entry}
    (same : first.map (·.name) = second.map (·.name)) (position : Nat) :
    IsFirst name first position ↔ IsFirst name second position := by
  unfold IsFirst
  rw [← List.getElem?_map, ← List.getElem?_map, same]

/-- An operand is the first of one name only. -/
theorem IsFirst.name_eq {name other : String} {operands : List Entry} {position : Nat}
    (first : IsFirst name operands position) (second : IsFirst other operands position) :
    name = other :=
  Option.some.inj (first.1.symm.trans second.1)

/-- What becomes of an ordinary operand: it takes over the bits of the register of which it is the
first operand, and nothing changes when there are none. -/
theorem settled_operand {entries : List Entry} {position : Nat} {operand : Entry}
    (found : (ordinary entries)[position]? = some operand) :
    (∀ register, TakesBits entries position register →
      (settled entries)[position]? = some (operand.absorb (register.bits entries))) ∧
    ((∀ register, ¬ TakesBits entries position register) →
      (settled entries)[position]? = some operand) := by
  have sameFirst := isFirst_congr StatusRegister.vectorStatus.name
    (names_takeOver .flags (StatusRegister.flags.bits entries) (ordinary entries)) position
  obtain ⟨flagsTaken, flagsKept⟩ :=
    getElem?_takeOver .flags (StatusRegister.flags.bits entries) found
  constructor
  · intro register takes
    cases register with
    | flags =>
      -- The first operand of one register is not the first of the other one.
      have notBoth : ¬ IsFirst StatusRegister.vectorStatus.name (ordinary entries) position :=
        fun second => absurd (takes.2.name_eq second) (by decide)
      exact (getElem?_takeOver .vectorStatus _ (flagsTaken takes)).2 fun both => notBoth (sameFirst.mp both.2)
    | vectorStatus =>
      have notBoth : ¬ IsFirst StatusRegister.flags.name (ordinary entries) position :=
        fun second => absurd (takes.2.name_eq second) (by decide)
      exact (getElem?_takeOver .vectorStatus _ (flagsKept fun both => notBoth both.2)).1
        ⟨takes.1, sameFirst.mpr takes.2⟩
  · intro takesNone
    exact (getElem?_takeOver .vectorStatus _ (flagsKept (takesNone .flags))).2 fun both =>
      takesNone .vectorStatus ⟨both.1, sameFirst.mp both.2⟩

/-- Gathering depends on the ordinary operands and the bits of each register alone. -/
theorem gatherStatus_congr {entries others : List Entry}
    (sameOrdinary : ordinary entries = ordinary others)
    (sameBits : ∀ register : StatusRegister, register.bits entries = register.bits others) :
    gatherStatus entries = gatherStatus others := by
  rw [gatherStatus_eq, gatherStatus_eq, sameOrdinary, sameBits, sameBits]

/-- A list in which no operand has the name of a bit is already gathered. -/
theorem gatherStatus_of_no_bits {entries : List Entry}
    (noBits : ∀ entry ∈ entries, ∀ register : StatusRegister, entry.name ∉ register.bitNames) :
    gatherStatus entries = entries := by
  have allOrdinary : ordinary entries = entries :=
    List.filter_eq_self.mpr fun entry member =>
      decide_eq_true fun register _ => noBits entry member register
  have none (register : StatusRegister) : register.bits entries = [] :=
    List.filter_eq_nil_iff.mpr fun entry member bit =>
      noBits entry member register (of_decide_eq_true bit).1
  rw [gatherStatus_eq, none, none, allOrdinary]
  rfl

/-- No operand of a gathered list has the name of a bit. -/
theorem not_bit_of_mem_gatherStatus {entries : List Entry} {entry : Entry}
    (member : entry ∈ gatherStatus entries) (register : StatusRegister) :
    entry.name ∉ register.bitNames := by
  have registers : ∀ added ∈ StatusRegister.all, added.name ∉ register.bitNames := by
    cases register <;> decide
  rw [gatherStatus_parts] at member
  rcases List.mem_append.mp member with kept | new
  · have named : entry.name ∈ (ordinary entries).map (·.name) :=
      names_settled entries ▸ List.mem_map_of_mem kept
    obtain ⟨operand, listed, same⟩ := List.mem_map.mp named
    have noBit := of_decide_eq_true (List.mem_filter.mp listed).2
    exact same ▸ noBit register (by cases register <;> decide)
  · obtain ⟨added, listed, rfl⟩ := List.mem_map.mp new
    exact registers added (List.mem_filter.mp listed).1

/-- An ignored bit counts nowhere: it is no ordinary operand and no tracked bit. -/
theorem gatherStatus_ignored {front back : List Entry} {entry : Entry} {register : StatusRegister}
    (ignored : entry.name ∈ register.ignoredNames) :
    gatherStatus (front ++ entry :: back) = gatherStatus (front ++ back) := by
  refine gatherStatus_congr ?_ fun other => ?_
  · have bit := mem_bitNames_of_ignored register _ ignored
    have listed : register ∈ StatusRegister.all := by cases register <;> decide
    have dropped : ¬ ∀ register ∈ StatusRegister.all, entry.name ∉ register.bitNames :=
      fun none => none register listed bit
    simp only [ordinary, List.filter_append, List.filter_cons, decide_eq_true_eq, dropped,
      if_false]
  · -- An ignored name of one register is no tracked name of the other one.
    have apart : ∀ name ∈ register.ignoredNames, name ∈ other.bitNames →
        name ∈ other.ignoredNames := by
      cases register <;> cases other <;> decide
    have dropped : ¬ (entry.name ∈ other.bitNames ∧ entry.name ∉ other.ignoredNames) :=
      fun tracked => tracked.2 (apart _ ignored tracked.1)
    simp only [StatusRegister.bits, List.filter_append, List.filter_cons, decide_eq_true_eq,
      dropped, if_false]

/-- What an ordinary operand has become: it gathers the bits of a register that takes them here,
and is what it was where none does. -/
theorem settled_gathers {entries : List Entry} {position : Nat} {operand : Entry}
    (found : (ordinary entries)[position]? = some operand) :
    ∃ kept, (settled entries)[position]? = some kept ∧
      kept.name = operand.name ∧ kept.ranges = operand.ranges ∧
      (∀ register, TakesBits entries position register →
        Gathers operand.flags (register.bits entries) kept) ∧
      ((∀ register, ¬ TakesBits entries position register) → kept = operand) := by
  obtain ⟨taken, unchanged⟩ := settled_operand found
  by_cases takes : ∃ register, TakesBits entries position register
  · obtain ⟨register, takes⟩ := takes
    refine ⟨_, taken register takes, rfl, rfl, fun other takesOther => ?_,
      fun takesNone => absurd takes (takesNone register)⟩
    have same : operand.absorb (other.bits entries) = operand.absorb (register.bits entries) :=
      Option.some.inj ((taken other takesOther).symm.trans (taken register takes))
    exact same ▸ absorb_gathers operand (other.bits entries)
  · have takesNone := not_exists.mp takes
    exact ⟨operand, unchanged takesNone, rfl, rfl,
      fun register takes => absurd takes (takesNone register), fun _ => rfl⟩

/-- Gathering replaces the tracked bits of a status register by one operand. The ordinary operands
stay in their order and keep their names and ranges. The first one of the name of a register with
tracked bits gathers them with its own access modes, every other one is unchanged, and registers
with tracked bits and no such operand get a new one behind. So the result depends on the ordinary
operands and the bits of each register alone, ignored bits count nowhere, and gathering again
changes nothing. -/
theorem status_gathered (entries : List Entry) :
    (∃ kept added, gatherStatus entries = kept ++ added ∧
      kept.length = (ordinary entries).length ∧
      (∀ position operand, (ordinary entries)[position]? = some operand →
        ∃ found, kept[position]? = some found ∧
          found.name = operand.name ∧ found.ranges = operand.ranges ∧
          (∀ register, TakesBits entries position register →
            Gathers operand.flags (register.bits entries) found) ∧
          ((∀ register, ¬ TakesBits entries position register) → found = operand)) ∧
      List.Forall₂ (fun register new => new.name = register.name ∧ new.ranges = [] ∧
          Gathers [] (register.bits entries) new)
        (StatusRegister.all.filter (IsAdded entries)) added) ∧
    (∀ others, ordinary entries = ordinary others →
      (∀ register : StatusRegister, register.bits entries = register.bits others) →
      gatherStatus entries = gatherStatus others) ∧
    (∀ front back entry, entries = front ++ entry :: back →
      (∃ register : StatusRegister, entry.name ∈ register.ignoredNames) →
      gatherStatus entries = gatherStatus (front ++ back)) ∧
    gatherStatus (gatherStatus entries) = gatherStatus entries := by
  refine ⟨⟨settled entries, _, gatherStatus_parts entries, ?length, ?kept, ?added⟩,
    fun _ => gatherStatus_congr, ?ignored, ?again⟩
  case length => simpa using congrArg List.length (names_settled entries)
  case kept => exact fun position operand found => settled_gathers found
  case added =>
    rw [List.forall₂_map_right_iff]
    exact List.forall₂_same.mpr fun register _ => ⟨rfl, rfl, composite_gathers _ _⟩
  case ignored =>
    rintro front back entry rfl ⟨register, ignored⟩
    exact gatherStatus_ignored ignored
  case again => exact gatherStatus_of_no_bits fun _ => not_bit_of_mem_gatherStatus

/-- The bits before and behind an operand of the register's own name end up in it. -/
example :
    gatherStatus
      [⟨"CF", [.read], [], none⟩, ⟨"RFLAGS", [.encoded], [], none⟩, ⟨"IF", [.written], [], none⟩,
        ⟨"IE", [.undefined], [], none⟩, ⟨"reg0", [.written], [], none⟩,
        ⟨"ZF", [.conditional], [], none⟩, ⟨"CF", [.written], [], none⟩] =
      [⟨"RFLAGS", [.read, .written, .conditional, .encoded], [], some ⟨["CF"], ["ZF", "CF"], []⟩⟩,
        ⟨"reg0", [.written], [], none⟩,
        ⟨"MXCSR", [.undefined], [], some ⟨[], [], ["IE"]⟩⟩] := by
  decide +kernel

end EncoderTables.Operand
