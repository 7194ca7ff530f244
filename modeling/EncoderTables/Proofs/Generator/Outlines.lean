import EncoderTables.Proofs.Code.Outline
import EncoderTables.Proofs.Generator.ExpressionTexts
import EncoderTables.Proofs.Generator.Routines
import EncoderTables.Proofs.Instruction.Names

/-!
# Outlines of functions

The code of a body follows its actions: each branch is a block or a choice of two, each call is
a block that leaves the function, and all else are lines. The function of unordered writes has
a block for each write inside of a block that selects it. No operator and no message can change
that, as long as it stands on one line. So functions are laid out at the depth of their blocks
on every page, and leave a printer as deep as it was.
-/

namespace EncoderTables.Generator

open Code Results

/-- The line that appends a value of a number of bits. -/
def writeLine (size : Int) (value : String) : String :=
  "evoasm_x64_enc_ctx_write" ++ toString size ++ "(ctx, " ++ value ++ ");"

/-- The line that reports a failure. -/
def messageLine (message : String) : String :=
  "evoasm_x64_enc_ctx_error(ctx, " ++ literalText message ++ ");"

/-- The block that performs a shared function and fails when it does. -/
def callBlock (function arguments : String) : Outline :=
  .block ("if(!" ++ function ++ "(" ++ arguments ++ "))") [.line "goto error;"]

mutual

/-- The outline of an action. -/
def outline (numbers : Numbers) (owner : Option String) : Node → Except Failure (List Outline)
  | .write value size => do
    let code ← expressionCode owner value
    return [.line (writeLine size code)]
  | .packed values sizes => do
    let size := Node.totalWidth sizes
    let terms ← packedCode owner size values (sizes.map Node.fieldWidth)
    return [.line (writeLine size (" | ".intercalate terms))]
  | .branch condition taken otherwise => do
    let test ← expressionCode owner condition
    let first ← outlineAll numbers owner taken
    if otherwise.isEmpty then return [.block ("if(" ++ test ++ ")") first]
    else
      let second ← outlineAll numbers owner otherwise
      return [.choice ("if(" ++ test ++ ")") first second]
  | .abort message => return [.line (messageLine message), .line "goto error;"]
  | .call routine => do
    let id ← numbers.ofRoutine routine
    return [callBlock (Naming.routineFunction (toString id)) "ctx"]
  | .unordered [single] _ => outline numbers owner single
  | .unordered writes order => do
    let _ ← unorderedCode numbers owner writes order.plain
    return [callBlock (Naming.orderingFunction (toString (numbers.ordering writes)))
      ("ctx, " ++ fieldAccess order.plain)]
  | node => blame owner (.notAction node.shown)

/-- The outline of several actions. -/
def outlineAll (numbers : Numbers) (owner : Option String) :
    List Node → Except Failure (List Outline)
  | [] => return []
  | node :: rest => do
    let first ← outline numbers owner node
    let others ← outlineAll numbers owner rest
    return first ++ others

end

/-- The outline of the cases of unordered writes, numbered from an index on. -/
def caseOutlines (numbers : Numbers) : (index : Nat) → List Node → Except Failure (List Outline)
  | _, [] => return []
  | index, write :: rest => do
    let body ← outline numbers none write
    let others ← caseOutlines numbers (index + 1) rest
    return .block ("case " ++ toString index ++ ":") (body ++ [.line "break;"]) :: others

/-- The outline of the function of unordered writes. -/
def orderingOutline (numbers : Numbers) (writes : List Node) : Except Failure (List Outline) := do
  let cases ← caseOutlines numbers 0 writes
  return [.block ("for(unsigned i = 0; i < " ++ toString writes.length ++ "; i++)")
    [.block ("switch(" ++ Naming.permutationTable (toString writes.length) ++ "[order][i])")
      (cases ++ [.line "default:", .line "evoasm_assert_not_reached();"])]]

/-- The block of a call is its code. -/
theorem text_callBlock (function arguments : String) :
    Outline.texts [callBlock function arguments] = callText function arguments := by
  simp [callBlock, Outline.texts, Outline.text, callText, failText, String.ext_iff]

/-- The code of unordered writes is a call. -/
theorem text_of_unordered {numbers : Numbers} {owner : Option String} {writes : List Node}
    {order code : String} (written : unorderedCode numbers owner writes order = .ok code) :
    code = callText (Naming.orderingFunction (toString (numbers.ordering writes)))
      ("ctx, " ++ fieldAccess order) ∧ Parameters.isKnown order = true := by
  unfold unorderedCode at written
  split at written
  · simp at written
  · simp only [bind_ok_iff, Numbers.ofOrdering] at written
    obtain ⟨id, found, width, -, written⟩ := written
    split at found
    · simp at found
    · cases found
      split at written
      · cases written
      · simp only [bind_ok_iff, pure_ok_iff] at written
        obtain ⟨_, used, rfl⟩ := written
        exact ⟨rfl, isKnown_of_checkUse used⟩

/-- The outline of one line is its code. -/
theorem texts_line (own : String) : Outline.texts [.line own] = own ++ "\n" := by
  rw [Outline.texts, Outline.texts, Outline.text, String.append_empty]

/-- The end of a line that calls a function. -/
theorem ended_call (front : String) : front ++ ");" ++ "\n" = front ++ ");\n" := by
  have joined : ");" ++ "\n" = ");\n" := rfl
  rw [String.append_assoc, joined]

/-- The end of a line with a condition. -/
theorem opened_block (front : String) : front ++ ")" ++ " \x7b\n" = front ++ ") \x7b\n" := by
  have joined : ")" ++ " \x7b\n" = ") \x7b\n" := rfl
  rw [String.append_assoc, joined]

/-- The line of a value is its code. -/
theorem text_writeLine (size : Int) (value : String) :
    Outline.texts [.line (writeLine size value)] = writeText size value := by
  rw [texts_line]
  exact ended_call _

/-- The lines of a failure are its code. -/
theorem text_messageLine (message : String) :
    Outline.texts [.line (messageLine message), .line "goto error;"] =
      "evoasm_x64_enc_ctx_error(ctx, " ++ literalText message ++ ");\n" ++ failText := by
  have first : messageLine message ++ "\n" =
      "evoasm_x64_enc_ctx_error(ctx, " ++ literalText message ++ ");\n" := ended_call _
  have last : "goto error;" ++ "\n" = failText := rfl
  rw [Outline.texts, Outline.text, texts_line, first, last]

/-- The block of a branch is its code. -/
theorem text_branch (test : String) (taken : List Outline) :
    Outline.texts [.block ("if(" ++ test ++ ")") taken] =
      "if(" ++ test ++ ") \x7b\n" ++ Outline.texts taken ++ "\x7d\n" := by
  rw [Outline.texts, Outline.texts, Outline.text, String.append_empty, opened_block]

/-- The choice of a branch is its code. -/
theorem text_choice (test : String) (taken otherwise : List Outline) :
    Outline.texts [.choice ("if(" ++ test ++ ")") taken otherwise] =
      "if(" ++ test ++ ") \x7b\n" ++ Outline.texts taken ++ "\x7d else \x7b\n" ++
        Outline.texts otherwise ++ "\x7d\n" := by
  rw [Outline.texts, Outline.texts, Outline.text, String.append_empty, opened_block]

/-- The outline of unordered writes is their code. -/
theorem text_unordered (numbers : Numbers) (owner : Option String) (writes : List Node)
    (order : String) :
    (do
      let _ ← unorderedCode numbers owner writes order
      return [callBlock (Naming.orderingFunction (toString (numbers.ordering writes)))
        ("ctx, " ++ fieldAccess order)] : Except Failure (List Outline)).map Outline.texts =
      unorderedCode numbers owner writes order := by
  cases written : unorderedCode numbers owner writes order with
  | error failure => rfl
  | ok code =>
    rw [(text_of_unordered written).1]
    exact congrArg Except.ok (text_callBlock _ _)

mutual

/-- The outline of an action is its code. -/
theorem text_outline (numbers : Numbers) (owner : Option String) : (node : Node) →
    (outline numbers owner node).map Outline.texts = actionCode numbers owner node
  | .write value size => by
    rw [outline, actionCode]
    cases expressionCode owner value with
    | error failure => rfl
    | ok code => exact congrArg Except.ok (text_writeLine size code)
  | .packed values sizes => by
    rw [outline, actionCode]
    cases packedCode owner (Node.totalWidth sizes) values (sizes.map Node.fieldWidth) with
    | error failure => rfl
    | ok terms => exact congrArg Except.ok (text_writeLine _ _)
  | .branch condition taken otherwise => by
    rw [outline, actionCode, ← text_outlineAll numbers owner taken,
      ← text_outlineAll numbers owner otherwise]
    cases expressionCode owner condition with
    | error failure => rfl
    | ok test =>
      cases outlineAll numbers owner taken with
      | error failure => rfl
      | ok first =>
        cases otherwise.isEmpty with
        | true => exact congrArg Except.ok (text_branch test first)
        | false =>
          cases outlineAll numbers owner otherwise with
          | error failure => rfl
          | ok second => exact congrArg Except.ok (text_choice test first second)
  | .abort message => by
    rw [outline, actionCode]
    exact congrArg Except.ok (text_messageLine message)
  | .call routine => by
    rw [outline, actionCode]
    cases numbers.ofRoutine routine with
    | error failure => rfl
    | ok id => exact congrArg Except.ok (text_callBlock _ _)
  | .unordered [] order => text_unordered numbers owner [] order.plain
  | .unordered [single] _ => by
    rw [outline, actionCode]
    exact text_outline numbers owner single
  | .unordered (first :: second :: rest) order =>
    text_unordered numbers owner (first :: second :: rest) order.plain
  | .bare _ => rfl
  | .group _ => rfl
  | .literal _ => rfl
  | .literalList _ => rfl
  | .param _ => rfl
  | .isSet _ => rfl
  | .unary .. => rfl
  | .binary .. => rfl
  | .routine .. => rfl

/-- The outline of several actions is their code. -/
theorem text_outlineAll (numbers : Numbers) (owner : Option String) : (nodes : List Node) →
    (outlineAll numbers owner nodes).map Outline.texts = codeAll numbers owner nodes
  | [] => rfl
  | node :: rest => by
    rw [outlineAll, codeAll, ← text_outline numbers owner node,
      ← text_outlineAll numbers owner rest]
    cases outline numbers owner node with
    | error failure => rfl
    | ok first =>
      cases outlineAll numbers owner rest with
      | error failure => rfl
      | ok others => exact congrArg Except.ok (Outline.texts_append first others)

end

mutual

/-- A node whose operators and messages stand on one line each. The routines that it calls are
not part of it. -/
def IsUnbroken : Node → Prop
  | .unary symbol inner => '\n' ∉ symbol.toList ∧ IsUnbroken inner
  | .binary symbol left right => '\n' ∉ symbol.toList ∧ IsUnbroken left ∧ IsUnbroken right
  | .write value _ => IsUnbroken value
  | .packed values _ => AreUnbroken values
  | .branch condition taken otherwise =>
    IsUnbroken condition ∧ AreUnbroken taken ∧ AreUnbroken otherwise
  | .abort message => '\n' ∉ message.toList
  | .unordered writes _ => AreUnbroken writes
  | _ => True

/-- Nodes whose operators and messages stand on one line each. -/
def AreUnbroken : List Node → Prop
  | [] => True
  | node :: rest => IsUnbroken node ∧ AreUnbroken rest

end

/-- A whole number stands on one line. -/
theorem whole_int (value : Int) : '\n' ∉ value.repr.toList := by
  have digits := @not_mem_digits '\n' (by decide) value.natAbs
  rw [toList_repr_int]
  split
  · exact List.not_mem_cons_of_ne_of_not_mem (by decide) digits
  · exact digits

/-- A natural number stands on one line. -/
theorem whole_nat (value : Nat) : '\n' ∉ (toString value).toList := whole_int value

/-- A hexadecimal number stands on one line. -/
theorem whole_hexadecimal (value : Nat) : '\n' ∉ (Text.hexadecimal value).toList := by
  have digits : '\n' ∉ Nat.toDigits 16 value := by
    intro member
    obtain ⟨digit, small, same⟩ := Text.mem_hexDigits member
    have checked : ∀ digit < 16, digit.digitChar ≠ '\n' := by decide
    exact checked digit small same.symm
  simpa [Text.hexadecimal] using digits

/-- A decimal fraction stands on one line. -/
theorem whole_decimal (mantissa : Int) (places : Nat) :
    '\n' ∉ (Text.decimal mantissa places).toList := by
  have plain (value : Nat) : '\n' ∉ Nat.toDigits 10 value := not_mem_digits (by decide) value
  have digits (value : Nat) : '\n' ∉ Text.significantDigits value := fun member =>
    plain value (List.mem_reverse.mp
      ((List.dropWhile_sublist _).mem (List.mem_reverse.mp member)))
  have front (value count : Nat) : '\n' ∉ (Text.significantDigits value).take count :=
    fun member => digits value (List.mem_of_mem_take member)
  have back (value count : Nat) : '\n' ∉ (Text.significantDigits value).drop count :=
    fun member => digits value (List.mem_of_mem_drop member)
  have positional (value : Nat) (point : Int) :
      '\n' ∉ Text.positional (Text.significantDigits value) point := by
    unfold Text.positional
    dsimp only
    split <;> split <;> simp [List.mem_replicate, front, back]
  have scientific (value : Nat) (power : Int) :
      '\n' ∉ Text.scientific (Text.significantDigits value) power := by
    unfold Text.scientific
    dsimp only
    have rest : '\n' ∉ (Text.significantDigits value).tail := fun member =>
      digits value (List.mem_of_mem_tail member)
    split <;> split <;> simp [List.mem_replicate, front, rest, plain]
  unfold Text.decimal
  dsimp only
  rw [String.toList_ofList]
  split
  · refine List.not_mem_cons_of_ne_of_not_mem (by decide) ?_
    split
    · decide
    · split
      · exact positional _ _
      · exact scientific _ _
  · split
    · decide
    · split
      · exact positional _ _
      · exact scientific _ _

/-- One text behind another stands on one line when both do. -/
theorem whole_append {first second : String} (one : '\n' ∉ first.toList)
    (two : '\n' ∉ second.toList) : '\n' ∉ (first ++ second).toList := by
  rw [String.toList_append, List.mem_append, not_or]
  exact ⟨one, two⟩

/-- A constant stands on one line. -/
theorem whole_constant {value : Scalar} {code : String} (found : constantText value = .ok code) :
    '\n' ∉ code.toList := by
  cases value with
  | truth value =>
    cases value with
    | true =>
      cases found
      decide
    | false =>
      cases found
      decide
  | number value =>
    cases found
    split
    · exact whole_int value
    · exact whole_hexadecimal _
  | decimal mantissa places =>
    rw [constantText] at found
    split at found
    · cases found
      exact whole_decimal mantissa places
    · simp at found
  | _ => simp [constantText] at found

/-- The name of a known parameter stands on one line. -/
theorem whole_known {name : String} (known : Parameters.isKnown name = true) :
    '\n' ∉ (fieldAccess name).toList := by
  have checked : ∀ field ∈ Arch.fieldWidths, '\n' ∉ field.1.toList := by decide
  obtain ⟨width, listed, -⟩ := Parameters.fieldWidth_of_known known
  simpa [fieldAccess] using checked _ listed

/-- The flag of an optional parameter stands on one line. -/
theorem whole_flag {name : String} (optional : Parameters.isOptional name = true) :
    '\n' ∉ (fieldAccess (Parameters.presenceFlag name)).toList := by
  have checked : ∀ listed ∈ Arch.optionalParameters, '\n' ∉ listed.toList := by decide
  have own := checked name (by simpa [Parameters.isOptional] using optional)
  simpa [fieldAccess, Parameters.presenceFlag] using own

/-- An expression stands on one line. -/
theorem whole_expression {owner : Option String} : (node : Node) → {code : String} →
    IsUnbroken node → expressionCode owner node = .ok code → '\n' ∉ code.toList
  | .literal value, code, _, found => whole_constant found
  | .param name, code, _, found => by
    simp only [expressionCode, bind_ok_iff, pure_ok_iff] at found
    obtain ⟨_, used, rfl⟩ := found
    exact whole_known (isKnown_of_checkUse used)
  | .isSet name, code, _, found => by
    rw [expressionCode] at found
    split at found
    · cases found
    · next optional =>
      simp only [bind_ok_iff, pure_ok_iff] at found
      obtain ⟨_, -, rfl⟩ := found
      exact whole_flag (by simpa using optional)
  | .unary symbol inner, code, unbroken, found => by
    simp only [expressionCode, bind_ok_iff] at found
    obtain ⟨operand, inside, written⟩ := found
    have whole := whole_expression inner unbroken.2 inside
    have sign := unbroken.1
    split at written
    · simp at written
    · split at written
      · simp only [pure_ok_iff] at written
        subst written
        simp [whole, sign]
      · simp only [pure_ok_iff] at written
        subst written
        simp [whole, sign]
  | .binary symbol left right, code, unbroken, found => by
    simp only [expressionCode, bind_ok_iff, pure_ok_iff] at found
    obtain ⟨first, onLeft, second, onRight, rfl⟩ := found
    have one := whole_expression left unbroken.2.1 onLeft
    have two := whole_expression right unbroken.2.2 onRight
    have sign := unbroken.1
    simp [one, two, sign]
  | .bare _, _, _, found => by cases found
  | .group _, _, _, found => by cases found
  | .literalList _, _, _, found => by simp [expressionCode] at found
  | .write .., _, _, found => by cases found
  | .packed .., _, _, found => by cases found
  | .branch .., _, _, found => by cases found
  | .abort _, _, _, found => by cases found
  | .routine .., _, _, found => by cases found
  | .call _, _, _, found => by cases found
  | .unordered .., _, _, found => by cases found

/-- The terms of a packed value stand on one line. -/
theorem whole_packed {owner : Option String} {values : List Node} {widths : List Int} {room : Int}
    {terms : List String} (unbroken : AreUnbroken values)
    (found : packedCode owner room values widths = .ok terms) :
    ∀ term ∈ terms, '\n' ∉ term.toList := by
  induction values generalizing widths room terms with
  | nil =>
    cases found
    exact List.forall_mem_nil _
  | cons value values inductionHypothesis =>
    cases widths with
    | nil =>
      cases found
      exact List.forall_mem_nil _
    | cons width widths =>
      simp only [packedCode, bind_ok_iff, pure_ok_iff] at found
      obtain ⟨code, own, mask, masked, others, more, rfl⟩ := found
      refine List.forall_mem_cons.mpr ⟨?_, inductionHypothesis unbroken.2 more⟩
      have first := whole_expression value unbroken.1 own
      have second : '\n' ∉ mask.toList := by
        unfold packedMask at masked
        split at masked
        · simp at masked
        · cases masked
          exact whole_hexadecimal _
      have third := whole_int (room - width)
      simp [first, second, third]

/-- A literal stands on one line if its text does. -/
theorem whole_literal {message : String} (whole : '\n' ∉ message.toList) :
    '\n' ∉ (literalText message).toList := by
  have escaped : '\n' ∉ message.toList.flatMap fun c =>
      if c = '\\' || c = '"' then ['\\', c] else [c] := by
    rw [List.mem_flatMap]
    rintro ⟨c, inside, member⟩
    have other : c ≠ '\n' := fun same => whole (same ▸ inside)
    split at member
    · simp [other.symm] at member
    · simp [other.symm] at member
  simpa [literalText] using escaped

/-- The line of a value is a statement. -/
theorem isStatement_writeLine {size : Int} {value : String} (whole : '\n' ∉ value.toList) :
    IsStatement (writeLine size value) where
  whole := whole_append (whole_append (whole_append (whole_append (by decide) (whole_int size))
    (by decide)) whole) (by decide)
  starts := (((OpensLine.append (by decide) _).append _).append _).append _
  ends := EndsLine.append (by decide) _

/-- The line that reports a failure is a statement. -/
theorem isStatement_messageLine {message : String} (whole : '\n' ∉ message.toList) :
    IsStatement (messageLine message) where
  whole := whole_append (whole_append (by decide) (whole_literal whole)) (by decide)
  starts := (OpensLine.append (by decide) _).append _
  ends := EndsLine.append (by decide) _

/-- The line that leaves a function is a statement. -/
theorem isStatement_goto : IsStatement "goto error;" := ⟨by decide, by decide, by decide⟩

/-- The block of a call is clear. -/
theorem clear_callBlock {function arguments : String} (one : '\n' ∉ function.toList)
    (two : '\n' ∉ arguments.toList) : Outline.AreClear [callBlock function arguments] := by
  refine ⟨⟨⟨?_, ?_⟩, Or.inr isStatement_goto, trivial⟩, trivial⟩
  · exact whole_append (whole_append (whole_append (whole_append (by decide) one) (by decide)) two)
      (by decide)
  · exact (((OpensLine.append (by decide) _).append _).append _).append _

/-- The head of a branch is one line. -/
theorem isHead_branch {test : String} (whole : '\n' ∉ test.toList) :
    IsHead ("if(" ++ test ++ ")") where
  whole := whole_append (whole_append (by decide) whole) (by decide)
  starts := (OpensLine.append (by decide) _).append _

/-- The names of shared functions stand on one line. -/
theorem whole_shared (id : Nat) : '\n' ∉ (Naming.routineFunction (toString id)).toList ∧
    '\n' ∉ (Naming.orderingFunction (toString id)).toList := by
  have routine : Naming.routineFunction (toString id) =
      "evoasm_" ++ ("x64_" ++ ("func_" ++ toString id)) := by rfl
  have ordering : Naming.orderingFunction (toString id) =
      "evoasm_" ++ ("x64_" ++ ("prefs_" ++ toString id)) := by rfl
  rw [routine, ordering]
  exact ⟨whole_append (by decide) (whole_append (by decide) (whole_append (by decide) (whole_nat id))),
    whole_append (by decide) (whole_append (by decide) (whole_append (by decide) (whole_nat id)))⟩

/-- The outline of unordered writes is clear. -/
theorem clear_unordered {numbers : Numbers} {owner : Option String} {writes : List Node}
    {order : String} {outlines : List Outline}
    (found : (do
      let _ ← unorderedCode numbers owner writes order
      return [callBlock (Naming.orderingFunction (toString (numbers.ordering writes)))
        ("ctx, " ++ fieldAccess order)]) = Except.ok (α := List Outline) outlines) :
    Outline.AreClear outlines := by
  simp only [bind_ok_iff, pure_ok_iff] at found
  obtain ⟨code, written, rfl⟩ := found
  have known := (text_of_unordered written).2
  exact clear_callBlock (whole_shared _).2 (whole_append (by decide) (whole_known known))

mutual

/-- The outline of an action is clear. -/
theorem clear_outline {numbers : Numbers} {owner : Option String} : (node : Node) →
    {outlines : List Outline} → IsUnbroken node → outline numbers owner node = .ok outlines →
      Outline.AreClear outlines
  | .write value size, outlines, unbroken, found => by
    simp only [outline, bind_ok_iff, pure_ok_iff] at found
    obtain ⟨code, own, rfl⟩ := found
    exact ⟨Or.inr (isStatement_writeLine (whole_expression value unbroken own)), trivial⟩
  | .packed values sizes, outlines, unbroken, found => by
    simp only [outline, bind_ok_iff, pure_ok_iff] at found
    obtain ⟨terms, own, rfl⟩ := found
    refine ⟨Or.inr (isStatement_writeLine fun member => ?_), trivial⟩
    rcases Text.mem_intercalate member with between | ⟨term, listed, inside⟩
    · exact absurd between (by decide)
    · exact whole_packed unbroken own term listed inside
  | .branch condition taken otherwise, outlines, ⟨one, two, three⟩, found => by
    simp only [outline, bind_ok_iff] at found
    obtain ⟨test, own, first, onTaken, found⟩ := found
    have head := isHead_branch (whole_expression condition one own)
    have clear := clear_outlineAll taken two onTaken
    split at found
    · simp only [pure_ok_iff] at found
      subst found
      exact ⟨⟨head, clear⟩, trivial⟩
    · simp only [bind_ok_iff, pure_ok_iff] at found
      obtain ⟨second, onOther, rfl⟩ := found
      exact ⟨⟨head, clear, clear_outlineAll otherwise three onOther⟩, trivial⟩
  | .abort message, outlines, unbroken, found => by
    cases found
    exact ⟨Or.inr (isStatement_messageLine unbroken), Or.inr isStatement_goto, trivial⟩
  | .call routine, outlines, _, found => by
    simp only [outline, bind_ok_iff, pure_ok_iff] at found
    obtain ⟨id, -, rfl⟩ := found
    exact clear_callBlock (whole_shared id).1 (by decide)
  | .unordered [] order, outlines, _, found => clear_unordered found
  | .unordered [single] _, outlines, unbroken, found =>
    clear_outline single unbroken.1 found
  | .unordered (_ :: _ :: _) order, outlines, _, found => clear_unordered found
  | .bare _, _, _, found => by cases found
  | .group _, _, _, found => by cases found
  | .literal _, _, _, found => by cases found
  | .literalList _, _, _, found => by cases found
  | .param _, _, _, found => by cases found
  | .isSet _, _, _, found => by cases found
  | .unary .., _, _, found => by cases found
  | .binary .., _, _, found => by cases found
  | .routine .., _, _, found => by cases found

/-- The outline of several actions is clear. -/
theorem clear_outlineAll {numbers : Numbers} {owner : Option String} : (nodes : List Node) →
    {outlines : List Outline} → AreUnbroken nodes →
      outlineAll numbers owner nodes = .ok outlines → Outline.AreClear outlines
  | [], outlines, _, found => by
    cases found
    trivial
  | node :: rest, outlines, unbroken, found => by
    simp only [outlineAll, bind_ok_iff, pure_ok_iff] at found
    obtain ⟨first, own, others, more, rfl⟩ := found
    exact (Outline.areClear_append first others).mpr
      ⟨clear_outline node unbroken.1 own, clear_outlineAll rest unbroken.2 more⟩

end

/-- The outline of unordered writes is the code of their cases. -/
theorem text_caseOutlines (numbers : Numbers) (index : Nat) (writes : List Node) :
    (caseOutlines numbers index writes).map Outline.texts = orderedCode numbers index writes := by
  induction writes generalizing index with
  | nil => rfl
  | cons write rest inductionHypothesis =>
    rw [caseOutlines, orderedCode, ← text_outline numbers none write,
      ← inductionHypothesis (index + 1)]
    cases outline numbers none write with
    | error failure => rfl
    | ok body =>
      cases caseOutlines numbers (index + 1) rest with
      | error failure => rfl
      | ok others =>
        refine congrArg Except.ok ?_
        simp [Outline.texts, Outline.text, String.ext_iff]

/-- The cases of unordered writes are clear. -/
theorem clear_caseOutlines {numbers : Numbers} {index : Nat} {writes : List Node}
    {outlines : List Outline} (unbroken : AreUnbroken writes)
    (found : caseOutlines numbers index writes = .ok outlines) : Outline.AreClear outlines := by
  induction writes generalizing index outlines with
  | nil =>
    cases found
    trivial
  | cons write rest inductionHypothesis =>
    simp only [caseOutlines, bind_ok_iff, pure_ok_iff] at found
    obtain ⟨body, own, others, more, rfl⟩ := found
    have clear := clear_outline write unbroken.1 own
    have leave : IsStatement "break;" := ⟨by decide, by decide, by decide⟩
    refine ⟨⟨⟨?_, ?_⟩, ?_⟩, inductionHypothesis unbroken.2 more⟩
    · exact whole_append (whole_append (by decide) (whole_nat index)) (by decide)
    · exact (OpensLine.append (by decide) _).append _
    · exact (Outline.areClear_append _ _).mpr ⟨clear, Or.inr leave, trivial⟩

/-- The outline of the function of unordered writes is its code. -/
theorem text_orderingOutline (numbers : Numbers) (writes : List Node) :
    (orderingOutline numbers writes).map Outline.texts = orderingCode numbers writes := by
  rw [orderingOutline, orderingCode, ← text_caseOutlines numbers 0 writes]
  cases caseOutlines numbers 0 writes with
  | error failure => rfl
  | ok cases =>
    have loop : "; i++) \x7b\n" = "; i++)" ++ " \x7b\n" := rfl
    have selection : "[order][i]) \x7b\n" = "[order][i])" ++ " \x7b\n" := rfl
    have rest : "default:\nevoasm_assert_not_reached();\n\x7d\n\x7d\n" =
        "default:" ++ "\n" ++ ("evoasm_assert_not_reached();" ++ "\n" ++ "") ++ "\x7d\n" ++
          "" ++ "\x7d\n" ++ "" := rfl
    refine congrArg Except.ok ?_
    rw [loop, selection, rest]
    simp only [Outline.texts, Outline.text, Outline.texts_append, String.append_assoc]

/-- The outline of the function of unordered writes is clear. -/
theorem clear_orderingOutline {numbers : Numbers} {writes : List Node} {outlines : List Outline}
    (unbroken : AreUnbroken writes) (found : orderingOutline numbers writes = .ok outlines) :
    Outline.AreClear outlines := by
  simp only [orderingOutline, bind_ok_iff, pure_ok_iff] at found
  obtain ⟨cases, inside, rfl⟩ := found
  have clear := clear_caseOutlines unbroken inside
  have others : IsStatement "default:" := ⟨by decide, by decide, by decide⟩
  have never : IsStatement "evoasm_assert_not_reached();" := ⟨by decide, by decide, by decide⟩
  have table : '\n' ∉ (Naming.permutationTable (toString writes.length)).toList :=
    whole_append (by decide) (whole_nat _)
  refine ⟨⟨⟨?_, ?_⟩, ⟨⟨?_, ?_⟩, ?_⟩, trivial⟩, trivial⟩
  · exact whole_append (whole_append (by decide) (whole_nat _)) (by decide)
  · exact (OpensLine.append (by decide) _).append _
  · exact whole_append (whole_append (by decide) table) (by decide)
  · exact (OpensLine.append (by decide) _).append _
  · exact (Outline.areClear_append _ _).mpr ⟨clear, Or.inr others, Or.inr never, trivial⟩

end EncoderTables.Generator
