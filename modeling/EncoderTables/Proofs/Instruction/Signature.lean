import EncoderTables.Proofs.Encoding.Shown
import EncoderTables.Proofs.Instruction.Filling
import EncoderTables.Proofs.Naming
import EncoderTables.Proofs.Operand.Specification
import Mathlib.Data.List.Basic

/-!
# What the signed text tells

The signed text lists the instructions without escapes, and the marks between their parts
also stand inside specifications and encodings. It is read back all the same: a name holds no
colon, a specification that is read cannot go on with one, and the text of an encoding ends
by itself. So sets with the same signed text have the same instructions, as far as the
text is to tell them.
-/

namespace EncoderTables

open Results

namespace Instruction

/-- Instructions that the signed text need not tell apart: names, positions and specifications
are equal, encodings are the same but for the names of routines. -/
structure Alike (first second : Instruction) : Prop where
  name : first.name = second.name
  position : first.position = second.position
  specification : first.specification = second.specification
  encoding : Node.sameAll first.encoding second.encoding = true

/-- A valid name holds no colon. -/
theorem no_colon_of_isValidName {name : String} (valid : isValidName name = true) :
    ':' ∉ name.toList := by
  intro member
  rcases isNamePart_of_isValidName valid ':' member with part | lineFeed
  · exact absurd part (by decide)
  · exact absurd lineFeed (by decide)

end Instruction

namespace InstructionSet

/-- What an entry of the signed text holds before its first colon. -/
def entryHead (instruction : Instruction) : List Char :=
  instruction.name.toList ++ '_' :: Nat.toDigits 10 (instruction.position.getD 0)

/-- An entry is its head, the specification and the encoding, each with a mark behind it. -/
theorem toList_signedEntry (instruction : Instruction) :
    (signedEntry instruction).toList = entryHead instruction ++ ':' ::
      (instruction.specification.toList ++ ':' ::
        ((Node.shownEncoding instruction.encoding).toList ++ [';'])) := by
  simp [signedEntry, entryHead]

/-- The head of an entry holds no colon. -/
theorem no_colon_entryHead {instruction : Instruction}
    (valid : Instruction.isValidName instruction.name = true) : ':' ∉ entryHead instruction := by
  simp only [entryHead, List.mem_append, List.mem_cons, not_or]
  exact ⟨Instruction.no_colon_of_isValidName valid, by decide, not_mem_digits (by decide) _⟩

/-- Entries of instructions at the same position are read in one way, whatever follows them. -/
theorem signedEntry_append {first second : Instruction} {rest others : List Char}
    (one : ({ first with position := none } : Instruction).Made)
    (two : ({ second with position := none } : Instruction).Made)
    (built : Node.areBuilt first.encoding = true) (builtToo : Node.areBuilt second.encoding = true)
    (position : first.position = second.position)
    (same : (signedEntry first).toList ++ rest = (signedEntry second).toList ++ others) :
    first.Alike second ∧ rest = others := by
  simp only [toList_signedEntry, List.append_assoc, List.cons_append] at same
  have named : Instruction.isValidName first.name = true := one.checked.name
  have namedToo : Instruction.isValidName second.name = true := two.checked.name
  obtain ⟨heads, specified⟩ :=
    Text.eq_of_separated (no_colon_entryHead named) (no_colon_entryHead namedToo) same
  have read := one.checked.operands
  have readToo := two.checked.operands
  dsimp only at read readToo
  obtain ⟨specifications, encoded⟩ := Operand.specification_append read readToo specified
  obtain ⟨encodings, ended⟩ := Node.shownEncoding_append built builtToo encoded
  rw [entryHead, entryHead, position, List.append_cancel_right_eq] at heads
  exact ⟨⟨String.toList_inj.mp heads, position, specifications, encodings⟩,
    (List.cons.inj ended).2⟩

/-- Entries of instructions with the same positions are read in one way. -/
theorem alike_of_entries {first second : List Instruction} (start : Nat)
    (one : ∀ index instruction, first[index]? = some instruction →
      instruction.position = some (start + index))
    (two : ∀ index instruction, second[index]? = some instruction →
      instruction.position = some (start + index))
    (made : ∀ instruction ∈ first ++ second,
      ({ instruction with position := none } : Instruction).Made ∧
        Node.areBuilt instruction.encoding = true)
    (same : first.flatMap (fun instruction => (signedEntry instruction).toList) =
      second.flatMap fun instruction => (signedEntry instruction).toList) :
    List.Forall₂ Instruction.Alike first second := by
  induction first generalizing second start with
  | nil =>
    cases second with
    | nil => exact .nil
    | cons other later => simp [toList_signedEntry] at same
  | cons instruction rest inductionHypothesis =>
    cases second with
    | nil => simp [toList_signedEntry] at same
    | cons other later =>
      rw [List.flatMap_cons, List.flatMap_cons] at same
      obtain ⟨own, built⟩ := made instruction (by simp)
      obtain ⟨ownToo, builtToo⟩ := made other (by simp)
      have position : instruction.position = other.position := by
        rw [one 0 instruction rfl, two 0 other rfl]
      obtain ⟨alike, tails⟩ := signedEntry_append own ownToo built builtToo position same
      have shift {index : Nat} : start + (index + 1) = start + 1 + index := by omega
      refine .cons alike (inductionHypothesis (start + 1) ?_ ?_ ?_ tails)
      · exact fun index found listed => shift ▸ one (index + 1) found listed
      · exact fun index found listed => shift ▸ two (index + 1) found listed
      · intro further member
        apply made
        simp only [List.mem_append, List.mem_cons] at member ⊢
        tauto

/-- Sets that have been filled with instructions whose encodings are built of nodes, with
whole numbers, truth values and texts as constants, have the same signed text only if they
have the same instructions in the same order: with the same names, positions and
specifications and with the same encodings, up to the names of routines. -/
theorem alike_of_signedText {left right : InstructionSet} (filled : left.Filled)
    (filledToo : right.Filled)
    (built : ∀ instruction ∈ left.instructions ++ right.instructions,
      Node.areBuilt instruction.encoding = true)
    (same : left.signedText = right.signedText) :
    List.Forall₂ Instruction.Alike left.instructions right.instructions := by
  have one := filled.registered
  have two := filledToo.registered
  have letters := congrArg String.toList same
  simp only [signedText, String.toList_join, List.flatMap_map] at letters
  refine alike_of_entries 0 ?_ ?_ ?_ letters
  · simpa using one.numbered
  · simpa using two.numbered
  · intro instruction member
    refine ⟨?_, built instruction member⟩
    exact (List.mem_append.mp member).elim (one.made instruction) (two.made instruction)

/-- An instruction with colons, semicolons and both quotes inside its encoding, which calls a
routine of the given name. -/
def callingRoutine (name : String) : Except Failure InstructionSet := do
  let instruction ← Instruction.make "lock_add" "add" "RAX:rw[0..7]; imm8:r"
    [.call (.routine name [.write (.literal (.number 240)) 8]),
      .branch (.isSet "imm0") [.abort "a \"b\"; it's:(c,)"]
        [.packed [.param "imm0", .literal (.truth true)] [.number 7, .truth true]]] [] [] [] []
  InstructionSet.empty.addAll [instruction]

/-- The set of this instruction has been filled. -/
theorem filled_of_callingRoutine {name : String} {set : InstructionSet}
    (found : callingRoutine name = .ok set) : set.Filled := by
  simp only [callingRoutine, bind_ok_iff] at found
  obtain ⟨instruction, made, added⟩ := found
  exact ⟨[instruction], by simpa using ⟨_, _, _, _, _, _, _, _, made⟩, added⟩

/-- Instructions that call routines of different names have the same signed text, and they
are alike. -/
theorem alike_of_callingRoutine : ∃ left right,
    callingRoutine "lock" = .ok left ∧ callingRoutine "prefix" = .ok right ∧
      left.signedText = right.signedText ∧
      List.Forall₂ Instruction.Alike left.instructions right.instructions := by
  have evaluated : passes (fun left => passes (fun right => left.signedText == right.signedText &&
      (left.instructions ++ right.instructions).all fun instruction =>
        Node.areBuilt instruction.encoding) (callingRoutine "prefix")) (callingRoutine "lock") =
      true := by
    decide +kernel
  obtain ⟨left, made, checked⟩ := exists_ok evaluated
  obtain ⟨right, madeToo, checks⟩ := exists_ok checked
  rw [Bool.and_eq_true, List.all_eq_true] at checks
  have same := eq_of_beq checks.1
  exact ⟨left, right, made, madeToo, same, alike_of_signedText (filled_of_callingRoutine made)
    (filled_of_callingRoutine madeToo) checks.2 same⟩

end InstructionSet

end EncoderTables
