import EncoderTables.Proofs.Operand.Binding
import EncoderTables.Proofs.Operand.Forms
import EncoderTables.Proofs.Operand.StatusBits

/-!
# Numbered parameters

The parameters of registers and those of immediates are numbered, each series on its own. The form
of a name decides what part its operand has in the parameters, and an operand that is not counted
in a series leaves the numbering of the series where it was. So the operands of a series are those
that its segments alone would have, whatever stands between them; and status bits are gathered
into implicit operands, which leaves the explicit segments in their order.
-/

namespace EncoderTables.Operand

open Results

/-- The series in which parameters are numbered. -/
inductive Series where
  | registers | immediates
  deriving DecidableEq, Repr

namespace Series

/-- What the parameters of a series start with. -/
def letters : Series → String
  | registers => "reg"
  | immediates => "imm"

/-- The parameter with a number in a series. -/
def parameter (series : Series) (index : Nat) : String := series.letters ++ toString index

/-- How many operands have been counted in a series. -/
def counted : Series → Numbering → Nat
  | registers => (·.registers)
  | immediates => (·.immediates)

/-- At the start nothing has been counted. -/
@[simp]
theorem counted_start (series : Series) : series.counted .start = 0 := by
  cases series <;> rfl

/-- The parameters of a series are not those with a name of their own. -/
theorem parameter_ne (series : Series) (index : Nat) :
    series.parameter index ≠ "rel" ∧ series.parameter index ≠ "moffs" := by
  cases series <;> simp [parameter, letters, ← String.toList_inj]

end Series

/-- The parts that explicit operands have in the parameters of an instruction. -/
inductive Role where
  | counted (series : Series) | distance | offset | unbound
  deriving DecidableEq, Repr

/-- The parameter of a role when so many operands have been counted. -/
def Role.parameter (numbering : Numbering) : Role → Option String
  | counted series => some (series.parameter (series.counted numbering))
  | distance => some "rel"
  | offset => some "moffs"
  | unbound => none

/-- The role of the operands of a form. -/
def Form.role : Form → Role
  | .vectorOrMemory .. | .generalOrMemory .. | .vectorRegister _ | .generalRegister _ =>
    .counted .registers
  | .immediate _ => .counted .immediates
  | .relative _ => .distance
  | .offset _ => .offset
  | .memory _ | .vectorIndexed .. => .unbound

/-- The type of the operands of a form. -/
def Form.kind : Form → Kind
  | .immediate _ | .relative _ => .imm
  | .vectorOrMemory .. | .generalOrMemory .. => .rm
  | .vectorRegister _ | .generalRegister _ => .reg
  | .memory _ | .offset _ => .mem
  | .vectorIndexed .. => .vsib

/-- An explicit segment whose name is written in a form of a role. -/
def Entry.HasRole (entry : Entry) (role : Role) : Prop :=
  isImplicit entry.name = false ∧
    ∃ form : Form, form.Written entry.name.toList ∧ form.role = role

/-- The operands of a series: explicit registers, with memory or without, and explicit immediates
that are no distances. -/
def Series.Has : Series → Operand → Prop
  | registers, operand => operand.implicit = false ∧ operand.shape.kind ∈ [.reg, .rm]
  | immediates, operand =>
    operand.implicit = false ∧ operand.shape.kind = .imm ∧ ¬ operand.entry.HasRole .distance

/-- A name is read in the form in which it is written. -/
theorem ofName?_eq_some_iff {name : String} {form : Form} :
    Form.ofName? name = some form ↔ form.Written name.toList :=
  findSome?_eq_some_iff (List.Perm.refl recognizers)

instance (entry : Entry) (role : Role) : Decidable (entry.HasRole role) :=
  decidable_of_iff (isImplicit entry.name = false ∧
      (Form.ofName? entry.name).map Form.role = some role)
    (by simp only [Entry.HasRole, Option.map_eq_some_iff, ofName?_eq_some_iff])

instance : (series : Series) → DecidablePred series.Has
  | .registers, _ => inferInstanceAs (Decidable (_ ∧ _))
  | .immediates, _ => inferInstanceAs (Decidable (_ ∧ _ ∧ ¬ _))

/-- The type of an operand is that of its form. -/
theorem Form.kind_shape {form : Form} {name : String} {shape : Shape}
    (shaped : form.shape name = .ok shape) : shape.kind = form.kind := by
  cases form with
  | generalOrMemory register memory => exact kind_withGeneral shaped
  | generalRegister width => exact kind_withGeneral shaped
  | _ =>
    cases shaped
    rfl

/-- The parameter of a form is that of its role. -/
theorem Form.parameter_fst (form : Form) (numbering : Numbering) :
    (form.parameter numbering).1 = form.role.parameter numbering := by
  cases form <;> rfl

/-- A form counts one operand in the series of its role, and none in the other one. -/
theorem Form.counted_parameter (series : Series) (form : Form) (numbering : Numbering) :
    series.counted (form.parameter numbering).2 =
      series.counted numbering + if form.role = .counted series then 1 else 0 := by
  cases form <;> cases series <;> rfl

/-- An explicit segment that is written in a form has the role of the form, and no other. -/
theorem Form.Written.hasRole_iff {entry : Entry} {form : Form}
    (written : form.Written entry.name.toList) (explicit : isImplicit entry.name = false)
    (role : Role) : entry.HasRole role ↔ form.role = role := by
  constructor
  · rintro ⟨-, other, again, same⟩
    rwa [written.unique again]
  · exact fun same => ⟨explicit, form, written, same⟩

/-- How the operand of a segment is made: its name fixes it, or is written in a form that gives it
a parameter and counts it. -/
inductive Makes (numbering : Numbering) (entry : Entry) : Operand → Numbering → Prop where
  | fixed {shape : Shape} (implicit : isImplicit entry.name = true)
    (shaped : implicitShape entry.name = .ok shape) :
    Makes numbering entry ⟨entry, shape, none⟩ numbering
  | written {form : Form} {shape : Shape} (explicit : isImplicit entry.name = false)
    (written : form.Written entry.name.toList) (shaped : form.shape entry.name = .ok shape) :
    Makes numbering entry ⟨entry, shape, (form.parameter numbering).1⟩ (form.parameter numbering).2

variable {numbering next other : Numbering} {entry : Entry} {operand : Operand}

/-- Operands are made in these two ways. -/
theorem ofEntry_ok_iff : ofEntry numbering entry = .ok (operand, next) ↔
    Makes numbering entry operand next := by
  constructor
  · intro read
    unfold ofEntry at read
    split at read
    · next implicit =>
      simp only [bind_ok_iff, pure_ok_iff, Prod.mk.injEq] at read
      obtain ⟨shape, shaped, rfl, rfl⟩ := read
      exact .fixed implicit shaped
    · next explicit =>
      split at read
      · cases read
      · next form found =>
        simp only [bind_ok_iff, pure_ok_iff, Prod.mk.injEq] at read
        obtain ⟨shape, shaped, rfl, rfl⟩ := read
        exact .written (Bool.not_eq_true _ ▸ explicit) (ofName?_eq_some_iff.mp found) shaped
  · rintro (⟨implicit, shaped⟩ | ⟨explicit, written, shaped⟩)
    · simp only [ofEntry, implicit, if_true, shaped]
      rfl
    · simp only [ofEntry, explicit, Bool.false_eq_true, if_false, ofName?_eq_some_iff.mpr written,
        shaped]
      rfl

namespace Makes

/-- An operand keeps its segment. -/
theorem entry_eq (made : Makes numbering entry operand next) : operand.entry = entry := by
  cases made <;> rfl

/-- The operands of a series are those whose segments are counted in it. -/
theorem has_iff (made : Makes numbering entry operand next) (series : Series) :
    series.Has operand ↔ entry.HasRole (.counted series) := by
  cases made with
  | fixed implicit shaped =>
    have notExplicit : ¬ isImplicit entry.name = false := by simp [implicit]
    cases series <;> simp [Series.Has, Entry.HasRole, Operand.implicit, notExplicit]
  | @written form shape explicit written shaped =>
    rw [written.hasRole_iff explicit]
    cases series with
    | registers =>
      simp only [Series.Has, Operand.implicit, explicit, Form.kind_shape shaped, true_and]
      cases form <;> simp [Form.kind, Form.role]
    | immediates =>
      simp only [Series.Has, Operand.implicit, explicit, Form.kind_shape shaped, true_and,
        written.hasRole_iff explicit]
      cases form <;> simp [Form.kind, Form.role]

/-- The parameter of an operand is that of the role of its segment. -/
theorem parameter_eq (made : Makes numbering entry operand next) {role : Role}
    (hasRole : entry.HasRole role) : operand.parameter = role.parameter numbering := by
  cases made with
  | fixed implicit shaped =>
    rw [hasRole.1] at implicit
    cases implicit
  | @written form shape explicit written shaped =>
    rw [← (written.hasRole_iff explicit role).mp hasRole]
    exact form.parameter_fst numbering

/-- An operand is counted in the series of its segment alone. -/
theorem counted_eq (made : Makes numbering entry operand next) (series : Series) :
    series.counted next =
      series.counted numbering + if entry.HasRole (.counted series) then 1 else 0 := by
  cases made with
  | fixed implicit shaped => simp [Entry.HasRole, implicit]
  | @written form shape explicit written shaped =>
    simp only [written.hasRole_iff explicit, form.counted_parameter]

/-- The operand of a segment of a series depends on the count of this series only. -/
theorem same_count {series : Series} (made : Makes numbering entry operand next)
    (hasRole : entry.HasRole (.counted series))
    (same : series.counted other = series.counted numbering) :
    ∃ later, Makes other entry operand later := by
  cases made with
  | fixed implicit shaped =>
    rw [hasRole.1] at implicit
    cases implicit
  | @written form shape explicit written shaped =>
    have role := (written.hasRole_iff explicit _).mp hasRole
    have sameParameter : (form.parameter numbering).1 = (form.parameter other).1 := by
      simp only [form.parameter_fst, role, Role.parameter, same]
    rw [sameParameter]
    exact ⟨_, .written explicit written shaped⟩

/-- What parameter an operand has tells the role of its segment, and implicit operands have none. -/
theorem roles (made : Makes numbering entry operand next) :
    (operand.implicit = true → operand.parameter = none) ∧
      (operand.parameter = some "rel" ↔ operand.entry.HasRole .distance) ∧
      (operand.parameter = some "moffs" ↔ operand.entry.HasRole .offset) ∧
      (operand.parameter ≠ none → (∃ series : Series, series.Has operand) ∨
        operand.entry.HasRole .distance ∨ operand.entry.HasRole .offset) := by
  simp only [made.has_iff, made.entry_eq]
  cases made with
  | fixed implicit shaped => simp [Entry.HasRole, implicit]
  | @written form shape explicit written shaped =>
    have notImplicit : ¬ isImplicit entry.name = true := by simp [explicit]
    simp only [written.hasRole_iff explicit, form.parameter_fst, Operand.implicit, notImplicit]
    cases form.role with
    | counted series =>
      simp [Role.parameter, series.parameter_ne (series.counted numbering)]
    | distance => simp [Role.parameter]
    | offset => simp [Role.parameter]
    | unbound => simp [Role.parameter]

end Makes

section Runs

variable {entries : List Entry} {operands : List Operand}

/-- Every operand is made from a segment. -/
theorem exists_makes (read : ofEntries numbering entries = .ok operands) :
    ∀ operand ∈ operands, ∃ before entry after, Makes before entry operand after :=
  ofEntries_forall (fun first => ⟨_, _, _, ofEntry_ok_iff.mp first⟩) read

/-- The operands of a list of segments keep them, in their order. -/
theorem map_entry (read : ofEntries numbering entries = .ok operands) :
    operands.map (·.entry) = entries := by
  induction entries generalizing numbering operands with
  | nil =>
    cases read
    rfl
  | cons entry rest inductionHypothesis =>
    obtain ⟨operand, next, others, first, later, rfl⟩ := ofEntries_cons_ok_iff.mp read
    rw [List.map_cons, (ofEntry_ok_iff.mp first).entry_eq, inductionHypothesis later]

/-- The operands of a series are those that its segments alone have, from any numbering that has
counted as many of them. -/
theorem ofEntries_filter {series : Series} (read : ofEntries numbering entries = .ok operands)
    (same : series.counted other = series.counted numbering) :
    ofEntries other (entries.filter (·.HasRole (.counted series))) =
      .ok (operands.filter (series.Has ·)) := by
  induction entries generalizing numbering other operands with
  | nil =>
    cases read
    rfl
  | cons entry rest inductionHypothesis =>
    obtain ⟨operand, next, others, first, later, rfl⟩ := ofEntries_cons_ok_iff.mp read
    have made := ofEntry_ok_iff.mp first
    by_cases counts : entry.HasRole (.counted series)
    · obtain ⟨after, madeAgain⟩ := made.same_count counts same
      have sameAfter : series.counted after = series.counted next := by
        rw [madeAgain.counted_eq, made.counted_eq, same]
      rw [List.filter_cons_of_pos (by simpa using counts),
        List.filter_cons_of_pos (by simpa using (made.has_iff series).mpr counts)]
      exact ofEntries_cons_ok_iff.mpr ⟨_, _, _, ofEntry_ok_iff.mpr madeAgain,
        inductionHypothesis later sameAfter, rfl⟩
    · have sameAfter : series.counted other = series.counted next := by
        rw [made.counted_eq, if_neg counts, same, Nat.add_zero]
      rw [List.filter_cons_of_neg (by simpa using counts),
        List.filter_cons_of_neg (by simpa using mt (made.has_iff series).mp counts)]
      exact inductionHypothesis later sameAfter

/-- Segments that are all counted in a series have its next parameters, in their order. -/
theorem parameters_of_counted {series : Series}
    (counts : ∀ entry ∈ entries, entry.HasRole (.counted series))
    (read : ofEntries numbering entries = .ok operands) :
    operands.map (·.parameter) =
      (List.range' (series.counted numbering) operands.length).map (some ∘ series.parameter) := by
  induction entries generalizing numbering operands with
  | nil =>
    cases read
    rfl
  | cons entry rest inductionHypothesis =>
    obtain ⟨operand, next, others, first, later, rfl⟩ := ofEntries_cons_ok_iff.mp read
    obtain ⟨own, rest⟩ := List.forall_mem_cons.mp counts
    have made := ofEntry_ok_iff.mp first
    have following := inductionHypothesis rest later
    rw [made.counted_eq, if_pos own] at following
    rw [List.map_cons, List.length_cons, List.range'_succ, List.map_cons, following,
      made.parameter_eq own]
    rfl

/-- The operands of a series have its parameters, from the one that is next. -/
theorem parameters_filter (series : Series) (read : ofEntries numbering entries = .ok operands) :
    (operands.filter (series.Has ·)).map (·.parameter) =
      (List.range' (series.counted numbering) (operands.filter (series.Has ·)).length).map
        (some ∘ series.parameter) := by
  refine parameters_of_counted (fun entry member => ?_) (ofEntries_filter read rfl)
  simpa using (List.mem_filter.mp member).2

end Runs

section Gathering

/-- The segments of explicit operands. -/
def explicitOf (entries : List Entry) : List Entry := entries.filter (!isImplicit ·.name)

/-- The names of status registers and of their bits are implicit. -/
theorem isImplicit_status (register : StatusRegister) : isImplicit register.name = true ∧
    ∀ name ∈ register.bitNames, isImplicit name = true := by
  cases register <;> decide +kernel

/-- Status bits are taken over by implicit operands. -/
theorem explicitOf_takeOver (register : StatusRegister) (bits entries : List Entry) :
    explicitOf (takeOver register bits entries) = explicitOf entries := by
  have named := (isImplicit_status register).1
  unfold takeOver
  split
  · rfl
  · induction entries with
    | nil => rfl
    | cons entry rest inductionHypothesis =>
      rw [changeFirst]
      split
      · next same => simp [explicitOf, Entry.absorb, same, named]
      · simp only [explicitOf, List.filter_cons] at inductionHypothesis ⊢
        rw [inductionHypothesis]

/-- Gathering status bits leaves the explicit segments in their order. -/
theorem explicitOf_gatherStatus (entries : List Entry) :
    explicitOf (gatherStatus entries) = explicitOf entries := by
  have noneAdded : explicitOf ((StatusRegister.all.filter (IsAdded entries)).map fun register =>
      composite register.name (register.bits entries)) = [] := by
    rw [explicitOf, List.filter_eq_nil_iff]
    intro entry member
    obtain ⟨register, -, rfl⟩ := List.mem_map.mp member
    simp [composite, (isImplicit_status register).1]
  have noBit (entry : Entry) (explicit : isImplicit entry.name = false) :
      ∀ register ∈ StatusRegister.all, entry.name ∉ register.bitNames := by
    intro register _ bit
    rw [(isImplicit_status register).2 _ bit] at explicit
    cases explicit
  have ordinaryEq : explicitOf (ordinary entries) = explicitOf entries := by
    rw [explicitOf, ordinary, List.filter_filter]
    refine List.filter_congr fun entry _ => ?_
    cases explicit : isImplicit entry.name with
    | true => rfl
    | false => simpa using noBit entry explicit
  calc explicitOf (gatherStatus entries)
      = explicitOf (settled entries) := by
        rw [gatherStatus_parts, explicitOf, List.filter_append]
        exact (congrArg _ noneAdded).trans (List.append_nil _)
    _ = explicitOf (ordinary entries) := by
        rw [settled, explicitOf_takeOver, explicitOf_takeOver]
    _ = explicitOf entries := ordinaryEq

/-- Gathering status bits leaves the segments of a role in their order. -/
theorem filter_gatherStatus (role : Role) (entries : List Entry) :
    (gatherStatus entries).filter (·.HasRole role) = entries.filter (·.HasRole role) := by
  have ofExplicit (segments : List Entry) :
      segments.filter (·.HasRole role) = (explicitOf segments).filter (·.HasRole role) := by
    rw [explicitOf, List.filter_filter]
    refine List.filter_congr fun entry _ => ?_
    cases explicit : isImplicit entry.name <;> simp [Entry.HasRole, explicit]
  rw [ofExplicit, explicitOf_gatherStatus, ← ofExplicit]

end Gathering

/-- The operands of a series are those of its segments in the specification. -/
theorem ofText_filter {specification : String} {instruction : Option String}
    {operands : List Operand} {entries : List Entry}
    (accepted : ofText specification instruction = .ok operands)
    (parsed : parseEntries specification instruction = .ok entries) (series : Series) :
    ofEntries .start (entries.filter (·.HasRole (.counted series))) =
      .ok (operands.filter (series.Has ·)) := by
  simp only [ofText, parseGathered, parsed, bind_ok_iff, map_ok_iff, mapError_ok_iff] at accepted
  obtain ⟨_, ⟨_, same, rfl⟩, read⟩ := accepted
  cases same
  rw [← filter_gatherStatus]
  exact ofEntries_filter read rfl

/-- The parameters of a specification that is accepted. Implicit operands have none. The operands of
a series are those of its segments, in the order of the specification, and have the parameters of
the series from number zero on, without gaps. Exactly the distances have the parameter `rel`,
exactly the offsets have `moffs`, and all other operands have no parameter. Specifications with the
same segments of a series have the same operands of the series: what else stands before, between and
behind them does not count. -/
theorem parameters_numbered {specification : String} {instruction : Option String}
    {operands : List Operand} (accepted : ofText specification instruction = .ok operands) :
    ∃ entries, parseEntries specification instruction = .ok entries ∧
      (∀ operand ∈ operands, operand.implicit = true → operand.parameter = none) ∧
      (∀ series : Series,
        (operands.filter (series.Has ·)).map (·.entry) =
            entries.filter (·.HasRole (.counted series)) ∧
          (operands.filter (series.Has ·)).map (·.parameter) =
            (List.range (operands.filter (series.Has ·)).length).map fun index =>
              some (series.letters ++ toString index)) ∧
      (∀ operand ∈ operands,
        (operand.parameter = some "rel" ↔ operand.entry.HasRole .distance) ∧
        (operand.parameter = some "moffs" ↔ operand.entry.HasRole .offset) ∧
        (operand.parameter ≠ none → (∃ series : Series, series.Has operand) ∨
          operand.entry.HasRole .distance ∨ operand.entry.HasRole .offset)) ∧
      ∀ (series : Series) (changed : String) (name : Option String) (segments : List Entry)
        (others : List Operand),
        ofText changed name = .ok others → parseEntries changed name = .ok segments →
        segments.filter (·.HasRole (.counted series)) =
          entries.filter (·.HasRole (.counted series)) →
        others.filter (series.Has ·) = operands.filter (series.Has ·) := by
  have opened := accepted
  simp only [ofText, parseGathered, bind_ok_iff, map_ok_iff, mapError_ok_iff] at opened
  obtain ⟨_, ⟨entries, parsed, rfl⟩, read⟩ := opened
  have parametersFromZero (series : Series) := parameters_filter series read
  simp only [Series.counted_start, ← List.range_eq_range'] at parametersFromZero
  refine ⟨entries, parsed, ?_, ?_, ?_, ?_⟩
  case refine_1 =>
    intro operand member
    obtain ⟨_, _, _, made⟩ := exists_makes read operand member
    exact made.roles.1
  case refine_2 =>
    exact fun series => ⟨map_entry (ofText_filter accepted parsed series),
      parametersFromZero series⟩
  case refine_3 =>
    intro operand member
    obtain ⟨_, _, _, made⟩ := exists_makes read operand member
    exact made.roles.2
  case refine_4 =>
    intro series changed name segments others acceptedToo parsedToo same
    have alone := ofText_filter acceptedToo parsedToo series
    rw [same, ofText_filter accepted parsed series] at alone
    exact (Except.ok.inj alone).symm

/-- A specification with two registers, and one with the same registers between operands of all
other kinds. -/
def registersAmongOthers : String × String :=
  ("r32:rw; imm8:r; rm32:r", "ZF:w; imm16:r; AC:r; r32:rw; m64:r; [RAX]:r; rel8:r; imm8:r; rm32:r")

/-- The segments of the registers in both specifications. -/
def twoRegisters : List Entry :=
  [⟨"r32", [.read, .written], [], none⟩, ⟨"rm32", [.read], [], none⟩]

/-- The registers have the same parameters in both specifications. -/
theorem parameters_numbered_amongOthers : ∃ operands others,
    ofText registersAmongOthers.1 none = .ok operands ∧
      ofText registersAmongOthers.2 none = .ok others ∧
      others.filter (Series.registers.Has ·) = operands.filter (Series.registers.Has ·) ∧
      (operands.filter (Series.registers.Has ·)).map (·.parameter) =
        [some "reg0", some "reg1"] := by
  obtain ⟨operands, accepted, two⟩ : ∃ operands,
      ofText registersAmongOthers.1 none = .ok operands ∧
        ((operands.filter (Series.registers.Has ·)).length == 2) = true :=
    exists_ok (by decide +kernel)
  obtain ⟨others, acceptedToo, -⟩ : ∃ others,
      ofText registersAmongOthers.2 none = .ok others ∧ (others.length == 8) = true :=
    exists_ok (by decide +kernel)
  obtain ⟨entries, parsed, own⟩ : ∃ entries,
      parseEntries registersAmongOthers.1 none = .ok entries ∧
        (entries.filter (·.HasRole (.counted .registers)) == twoRegisters) = true :=
    exists_ok (by decide +kernel)
  obtain ⟨segments, parsedToo, same⟩ : ∃ segments,
      parseEntries registersAmongOthers.2 none = .ok segments ∧
        (segments.filter (·.HasRole (.counted .registers)) == twoRegisters) = true :=
    exists_ok (by decide +kernel)
  obtain ⟨found, parsedAgain, -, inSeries, -, stable⟩ := parameters_numbered accepted
  cases Except.ok.inj (parsed.symm.trans parsedAgain)
  refine ⟨operands, others, accepted, acceptedToo, ?_, ?_⟩
  · exact stable .registers _ none segments others acceptedToo parsedToo
      ((beq_iff_eq.mp same).trans (beq_iff_eq.mp own).symm)
  · rw [(inSeries .registers).2, beq_iff_eq.mp two]
    decide

end EncoderTables.Operand
