import EncoderTables.Proofs.Domain.Names
import EncoderTables.Proofs.Domain.Registration
import EncoderTables.Proofs.Results
import Mathlib.Data.Finset.Card
import Mathlib.Data.List.Nodup

/-!
# Canonical enumerations

The order of members is strict and total, so members in this order without repetitions are known
by which they are. An enumeration keeps its members so, whatever order and repetitions it is made
from. Equal sets are one domain with one name, which is registered once.
-/

namespace EncoderTables

namespace Member

/-- Members that stand in their order, each once. -/
def Ordered (members : List Member) : Prop :=
  members.Pairwise fun first second => first.precedes second = true

/-- No member stands before itself. -/
theorem not_precedes_self (member : Member) : member.precedes member = false := by
  cases member <;> simp [precedes]

/-- A member before another one stands before all behind it. -/
theorem precedes_trans {first second third : Member} (one : first.precedes second = true)
    (two : second.precedes third = true) : first.precedes third = true := by
  cases first with
  | number low =>
    cases third with
    | number high =>
      cases second with
      | number middle =>
        simp only [precedes, decide_eq_true_eq] at one two ⊢
        exact Int.lt_trans one two
      | register middle => simp [precedes] at two
    | register high => rfl
  | register low =>
    cases second with
    | number middle => simp [precedes] at one
    | register middle =>
      cases third with
      | number high => simp [precedes] at two
      | register high =>
        simp only [precedes, decide_eq_true_eq] at one two ⊢
        exact Fin.lt_trans one two

/-- Of two members not both stand before the other. -/
theorem precedes_asymm {first second : Member} (before : first.precedes second = true) :
    second.precedes first = false := by
  refine Bool.eq_false_iff.mpr fun behind => ?_
  have own := precedes_trans before behind
  rw [not_precedes_self] at own
  cases own

/-- Of two members one stands before the other. -/
theorem precedes_total {first second : Member} (differs : first ≠ second) :
    first.precedes second = true ∨ second.precedes first = true := by
  cases first with
  | number low =>
    cases second with
    | number high =>
      have apart : low ≠ high := fun same => differs (same ▸ rfl)
      simpa [precedes] using Int.lt_or_lt_of_ne apart
    | register high => exact Or.inl rfl
  | register low =>
    cases second with
    | number high => exact Or.inr rfl
    | register high =>
      have apart : low ≠ high := fun same => differs (same ▸ rfl)
      simpa [precedes] using Fin.lt_or_lt_of_ne apart

/-- Ordered members are distinct. -/
theorem Ordered.nodup {members : List Member} (ordered : Ordered members) : members.Nodup := by
  refine ordered.imp fun {first second} before same => ?_
  rw [same, not_precedes_self] at before
  cases before

/-- Ordered members are known by which they are. -/
theorem Ordered.eq_iff {first second : List Member} (one : Ordered first) (two : Ordered second) :
    first = second ↔ ∀ member, member ∈ first ↔ member ∈ second := by
  refine ⟨fun same member => same ▸ Iff.rfl, fun same => ?_⟩
  have permuted := (List.perm_ext_iff_of_nodup one.nodup two.nodup).mpr same
  refine permuted.eq_of_pairwise (fun low high _ _ before behind => ?_) one two
  rw [precedes_asymm before] at behind
  cases behind

/-- A member that is put at its place is one of the members. -/
@[simp]
theorem mem_insert {member other : Member} {members : List Member} :
    other ∈ insert member members ↔ other = member ∨ other ∈ members := by
  induction members with
  | nil => simp [insert]
  | cons first members inductionHypothesis =>
    unfold insert
    split
    · next same => simp [same]
    · split
      · simp
      · simp only [List.mem_cons, inductionHypothesis]
        exact or_left_comm

/-- A member that is put at its place leaves the members ordered. -/
theorem Ordered.insert {members : List Member} (ordered : Ordered members) (member : Member) :
    Ordered (insert member members) := by
  induction members with
  | nil => exact List.pairwise_singleton ..
  | cons first members inductionHypothesis =>
    obtain ⟨before, others⟩ := List.pairwise_cons.mp ordered
    unfold Member.insert
    split
    · exact ordered
    · next differs =>
      split
      · next early =>
        refine List.pairwise_cons.mpr ⟨fun other inside => ?_, ordered⟩
        rcases List.mem_cons.mp inside with rfl | later
        · exact early
        · exact precedes_trans early (before other later)
      · next late =>
        refine List.pairwise_cons.mpr ⟨fun other inside => ?_, inductionHypothesis others⟩
        rcases mem_insert.mp inside with rfl | later
        · exact (precedes_total differs).resolve_left late
        · exact before other later

/-- The distinct members of a list are its members. -/
@[simp]
theorem mem_canonical {member : Member} {members : List Member} :
    member ∈ canonical members ↔ member ∈ members := by
  induction members with
  | nil => rfl
  | cons first members inductionHypothesis =>
    rw [canonical, List.foldr_cons, mem_insert, ← canonical, inductionHypothesis, List.mem_cons]

/-- The distinct members of a list stand in their order. -/
theorem canonical_ordered (members : List Member) : Ordered (canonical members) := by
  induction members with
  | nil => exact .nil
  | cons first members inductionHypothesis => exact inductionHypothesis.insert first

/-- Lists have the same distinct members in order exactly when they have the same members. -/
theorem canonical_eq_iff {first second : List Member} :
    canonical first = canonical second ↔ ∀ member, member ∈ first ↔ member ∈ second := by
  simp only [(canonical_ordered first).eq_iff (canonical_ordered second), mem_canonical]

/-- A member that may stand before another one in a sorted list. -/
def atMost (first second : Member) : Bool := !second.precedes first

/-- A member may stand before itself and those that it precedes. -/
theorem atMost_iff {first second : Member} :
    first.atMost second = true ↔ first = second ∨ first.precedes second = true := by
  rw [atMost, Bool.not_eq_true']
  constructor
  · intro late
    refine or_iff_not_imp_left.mpr fun differs => (precedes_total differs).resolve_right ?_
    rw [late]
    exact Bool.false_ne_true
  · rintro (rfl | before)
    · exact not_precedes_self first
    · exact precedes_asymm before

/-- However the distinct members are listed, sorting puts them into their order. -/
theorem mergeSort_eq_canonical {members listed : List Member} (distinct : listed.Nodup)
    (same : ∀ member, member ∈ listed ↔ member ∈ members) :
    listed.mergeSort atMost = canonical members := by
  have permuted := List.mergeSort_perm listed atMost
  have sorted : (listed.mergeSort atMost).Pairwise
      fun first second => first.atMost second = true := by
    refine List.pairwise_mergeSort (fun first second third one two => ?_)
      (fun first second => ?_) listed
    · rw [atMost_iff] at one two ⊢
      rcases one with rfl | before
      · exact two
      · exact Or.inr (two.elim (fun equal => equal ▸ before) (precedes_trans before))
    · rw [Bool.or_eq_true, atMost_iff, atMost_iff]
      by_cases equal : first = second
      · exact Or.inl (Or.inl equal)
      · exact (precedes_total equal).imp Or.inr Or.inr
  have ordered : Ordered (listed.mergeSort atMost) :=
    (sorted.and (permuted.nodup_iff.mpr distinct)).imp fun both =>
      (atMost_iff.mp both.1).resolve_left both.2
  rw [ordered.eq_iff (canonical_ordered members)]
  intro member
  rw [permuted.mem_iff, same, mem_canonical]

/-- As many distinct members are kept as there are. -/
theorem length_canonical (members : List Member) :
    (canonical members).length = members.toFinset.card := by
  rw [← List.toFinset_card_of_nodup (canonical_ordered members).nodup]
  congr 1
  ext member
  simp

/-- Ordered members are integers by value, then registers by id. -/
theorem Ordered.exists_parts {members : List Member} (ordered : Ordered members) :
    ∃ (numbers : List Int) (registers : List Arch.Register),
      members = numbers.map number ++ registers.map register ∧
        numbers.Pairwise (· < ·) ∧ registers.Pairwise (· < ·) := by
  induction members with
  | nil => exact ⟨[], [], rfl, .nil, .nil⟩
  | cons first members inductionHypothesis =>
    obtain ⟨before, others⟩ := List.pairwise_cons.mp ordered
    obtain ⟨numbers, registers, rfl, low, high⟩ := inductionHypothesis others
    cases first with
    | number value =>
      refine ⟨value :: numbers, registers, rfl, List.pairwise_cons.mpr ⟨fun other inside => ?_, low⟩,
        high⟩
      have less := before (number other) (List.mem_append_left _ (List.mem_map_of_mem inside))
      simpa [precedes] using less
    | register id =>
      -- No integer stands behind a register.
      have none : numbers = [] := by
        refine List.eq_nil_iff_forall_not_mem.mpr fun other inside => ?_
        have less := before (number other) (List.mem_append_left _ (List.mem_map_of_mem inside))
        simp [precedes] at less
      subst none
      refine ⟨[], id :: registers, rfl, .nil, List.pairwise_cons.mpr ⟨fun other inside => ?_, high⟩⟩
      have less := before (register other) (List.mem_append_right _ (List.mem_map_of_mem inside))
      simpa [precedes] using less

/-- A register is found by its name. -/
theorem register?_registerName (id : Arch.Register) :
    Arch.register? (Arch.registerName id) = some id := by
  unfold Arch.register?
  cases found : (List.finRange Arch.registerCount).find? fun register =>
      Arch.registerName register == Arch.registerName id with
  | none =>
    have missed := List.find?_eq_none.mp found id (List.mem_finRange id)
    simp at missed
  | some other =>
    have same : Arch.registerName other = Arch.registerName id := by
      simpa using List.find?_some found
    rw [registerName_injective same]

/-- How a member is given. -/
def given : Member → Given
  | number value => .number value
  | register id => .register (Arch.registerName id)

/-- A member is found as it is given. -/
theorem ofGiven?_given (member : Member) : ofGiven? member.given = .ok member := by
  cases member with
  | number value => rfl
  | register id => simp [given, ofGiven?, register?_registerName]

/-- Different members are given differently. -/
theorem given_injective : Function.Injective given := by
  intro first second same
  have found := ofGiven?_given first
  rw [same, ofGiven?_given second] at found
  exact (Except.ok.inj found).symm

/-- Nothing is left of a list without members only. -/
theorem canonical_eq_nil {members : List Member} : canonical members = [] ↔ members = [] := by
  simp only [List.eq_nil_iff_forall_not_mem, mem_canonical]

/-- An integer or the name of a register is given. -/
def Given.IsKnown : Given → Prop
  | number _ => True
  | register name => name ∈ Arch.registerNames

/-- Integers and names of registers give members. -/
theorem Given.IsKnown.exists_member {value : Given} (known : value.IsKnown) :
    ∃ member : Member, member.given = value := by
  cases value with
  | number value => exact ⟨.number value, rfl⟩
  | register name =>
    obtain ⟨position, rfl⟩ := List.mem_iff_get.mp known
    exact ⟨.register (position.cast Arch.registerNames_length), rfl⟩

/-- Lists of integers and names of registers give lists of members. -/
theorem exists_members {values : List Given} (known : ∀ value ∈ values, value.IsKnown) :
    ∃ members : List Member, members.map given = values := by
  induction values with
  | nil => exact ⟨[], rfl⟩
  | cons value values inductionHypothesis =>
    obtain ⟨own, others⟩ := List.forall_mem_cons.mp known
    obtain ⟨member, rfl⟩ := own.exists_member
    obtain ⟨members, rfl⟩ := inductionHypothesis others
    exact ⟨member :: members, rfl⟩

end Member

namespace Domain

/-- How the members of an enumeration are kept: one to thirty-two distinct members, integers by
value before registers by id. -/
structure IsCanonical (members : List Member) : Prop where
  distinct : members.Nodup
  filled : members ≠ []
  bounded : members.length ≤ 32
  ordered : ∃ (numbers : List Int) (registers : List Arch.Register),
    members = numbers.map Member.number ++ registers.map Member.register ∧
      numbers.Pairwise (· < ·) ∧ registers.Pairwise (· < ·)

/-- An enumeration of given members is one of these members. -/
theorem enumeration?_given (members : List Member) :
    enumeration? (members.map Member.given) = ofMembers? members := by
  have read : (members.map Member.given).mapM Member.ofGiven? = .ok members := by
    induction members with
    | nil => rfl
    | cons member members inductionHypothesis =>
      rw [List.map_cons, List.mapM_cons, Member.ofGiven?_given, inductionHypothesis]
      rfl
  rw [enumeration?, read]
  rfl

/-- The enumerations that there are: those of one to thirty-two members. -/
theorem ofMembers?_ok_iff {members : List Member} {domain : Domain} :
    ofMembers? members = .ok domain ↔ members ≠ [] ∧ members.toFinset.card ≤ 32 ∧
      domain = .enumeration (Member.canonical members) := by
  unfold ofMembers? enumerationLimit
  dsimp only
  rw [Member.length_canonical]
  split
  · next none =>
    simp [refuse, Member.canonical_eq_nil.mp (List.isEmpty_iff.mp none)]
  · next some =>
    rw [List.isEmpty_iff, Member.canonical_eq_nil] at some
    split <;> simp [refuse, some, eq_comm] <;> omega

/-- The enumerations that are refused: those of no members and those of too many. -/
theorem ofMembers?_error_iff {members : List Member} {failure : Failure} :
    ofMembers? members = .error failure ↔
      (members = [] ∧ failure = .of .emptyEnumeration) ∨
        (32 < members.toFinset.card ∧
          failure = .of (.enumerationTooLong members.toFinset.card 32)) := by
  unfold ofMembers? enumerationLimit
  dsimp only
  rw [Member.length_canonical]
  split
  · next none =>
    simp [refuse, Member.canonical_eq_nil.mp (List.isEmpty_iff.mp none), eq_comm]
  · next some =>
    rw [List.isEmpty_iff, Member.canonical_eq_nil] at some
    split <;> simp [refuse, some, eq_comm] <;> omega

/-- What enumerations keep is canonical. -/
theorem isCanonical_canonical {members : List Member} (filled : members ≠ [])
    (bounded : members.toFinset.card ≤ 32) : IsCanonical (Member.canonical members) where
  distinct := (Member.canonical_ordered members).nodup
  filled := mt Member.canonical_eq_nil.mp filled
  bounded := (Member.length_canonical members).trans_le bounded
  ordered := (Member.canonical_ordered members).exists_parts

/-- What is given is the same set when the members are. -/
theorem given_eq_iff {first second : List Member} :
    (∀ value, value ∈ first.map Member.given ↔ value ∈ second.map Member.given) ↔
      Member.canonical first = Member.canonical second := by
  have listed (members : List Member) (member : Member) :
      member.given ∈ members.map Member.given ↔ member ∈ members :=
    List.mem_map_of_injective Member.given_injective
  rw [Member.canonical_eq_iff]
  constructor
  · intro same member
    rw [← listed first, ← listed second, same]
  · intro same value
    simp only [List.mem_map, same]

/-- As many distinct members are there as are given. -/
theorem card_given (members : List Member) :
    (members.map Member.given).toFinset.card = members.toFinset.card := by
  have image : (members.map Member.given).toFinset = members.toFinset.image Member.given := by
    ext value
    simp
  rw [image, Finset.card_image_of_injective _ Member.given_injective]

/-- Enumerations are canonical. A list of integers and names of registers is refused when it is
empty and when it has more than thirty-two distinct members, and only then. Otherwise its distinct
members are kept, integers by value before registers by id, and in whatever order a set of them is
listed, sorting arrives there. So two lists make equal enumerations, and enumerations of the same
name, when they have the same members, in whatever order and with whatever repetitions. Registering
any domains one after the other therefore keeps each distinct one once and what was kept before as
it was, and hands out for each domain the entry of the first one that is equal to it. -/
theorem enumeration_canonical :
    (∀ values : List Member.Given, (∀ value ∈ values, value.IsKnown) →
      (∀ failure, enumeration? values = .error failure ↔
        (values = [] ∧ failure = .of .emptyEnumeration) ∨
          (32 < values.toFinset.card ∧
            failure = .of (.enumerationTooLong values.toFinset.card 32))) ∧
      ∀ domain, enumeration? values = .ok domain →
        ∃ members, domain = .enumeration members ∧ IsCanonical members ∧
          (∀ value, value ∈ members.map Member.given ↔ value ∈ values) ∧
            ∀ listed : List Member, listed.Nodup →
              (∀ value, value ∈ listed.map Member.given ↔ value ∈ values) →
                listed.mergeSort Member.atMost = members) ∧
    (∀ first second : List Member.Given, (∀ value ∈ first, value.IsKnown) →
      (∀ value ∈ second, value.IsKnown) → ∀ one two, enumeration? first = .ok one →
        enumeration? second = .ok two →
          (one = two ↔ ∀ value, value ∈ first ↔ value ∈ second) ∧
            (one.name = two.name ↔ ∀ value, value ∈ first ↔ value ∈ second)) ∧
    (∀ domains : List Domain,
      (Registry.empty.registerAll domains).domains.length = domains.toFinset.card) ∧
    (∀ front back : List Domain,
      (Registry.empty.registerAll front).domains <+:
        (Registry.empty.registerAll (front ++ back)).domains) ∧
    ∀ (front : List Domain) (domain : Domain) (back : List Domain), domain ∉ front →
      (Registry.empty.registerAll (front ++ domain :: back)).lookup? domain =
        some (domain, (Registry.empty.registerAll front).domains.length) := by
  refine ⟨fun values known => ?_, fun first second knownFirst knownSecond one two made other => ?_,
    Registry.length_registerAll, Registry.domains_isPrefix,
    fun front domain back new => Registry.lookup?_registerAll new back⟩
  · obtain ⟨members, rfl⟩ := Member.exists_members known
    rw [enumeration?_given]
    refine ⟨fun failure => ?_, fun domain made => ?_⟩
    · rw [ofMembers?_error_iff, card_given, List.map_eq_nil_iff]
    · obtain ⟨filled, bounded, rfl⟩ := ofMembers?_ok_iff.mp made
      refine ⟨_, rfl, isCanonical_canonical filled bounded, ?_, fun listed distinct same => ?_⟩
      · simp only [List.mem_map, Member.mem_canonical, implies_true]
      · exact Member.mergeSort_eq_canonical distinct
          (Member.canonical_eq_iff.mp (given_eq_iff.mp same))
  · obtain ⟨members, rfl⟩ := Member.exists_members knownFirst
    obtain ⟨others, rfl⟩ := Member.exists_members knownSecond
    rw [enumeration?_given] at made other
    obtain ⟨-, -, rfl⟩ := ofMembers?_ok_iff.mp made
    obtain ⟨-, -, rfl⟩ := ofMembers?_ok_iff.mp other
    rw [name_inj, given_eq_iff, enumeration.injEq]
    exact ⟨Iff.rfl, Iff.rfl⟩

/-- Two lists of the same four members, in different orders and with repetitions. -/
def mixedLists : List Member.Given × List Member.Given :=
  ([.register "C", .number 3, .number (-1), .number 3, .register "A"],
    [.register "A", .number (-1), .register "C", .register "A", .number 3])

/-- They make one enumeration, which is handed out where it was registered first. -/
theorem enumeration_canonical_mixed :
    ∃ one two, enumeration? mixedLists.1 = .ok one ∧ enumeration? mixedLists.2 = .ok two ∧
      one = two ∧ one.name = "param_domain_enum__-1_3_A_C" ∧
        (∃ members, one = .enumeration members ∧ IsCanonical members) ∧
          (Registry.empty.registerAll [.interval 0 1, one, two]).lookup? one = some (one, 1) := by
  have known : (∀ value ∈ mixedLists.1, value.IsKnown) ∧
      ∀ value ∈ mixedLists.2, value.IsKnown := by
    simp [mixedLists, Member.Given.IsKnown]
    decide
  have same : ∀ value, value ∈ mixedLists.1 ↔ value ∈ mixedLists.2 := by
    intro value
    simp only [mixedLists, List.mem_cons, List.not_mem_nil, or_false]
    tauto
  have made : enumeration? mixedLists.1 =
      .ok (.enumeration [.number (-1), .number 3, .register 0, .register 1]) := by decide
  have other : enumeration? mixedLists.2 =
      .ok (.enumeration [.number (-1), .number 3, .register 0, .register 1]) := by decide
  obtain ⟨each, pair, -, -, place⟩ := enumeration_canonical
  obtain ⟨members, kept, canonical, -⟩ := (each _ known.1).2 _ made
  exact ⟨_, _, made, other, (pair _ _ known.1 known.2 _ _ made other).1.mpr same, by decide,
    ⟨members, kept, canonical⟩, place [.interval 0 1] _ _ (by decide)⟩

end Domain

end EncoderTables
