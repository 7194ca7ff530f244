import EncoderTables.Proofs.Domain.Names
import EncoderTables.Proofs.Generator.Texts
import EncoderTables.Proofs.Parameters.Fields
import EncoderTables.Proofs.Results
import EncoderTables.Proofs.Text.Reading

/-!
# Reading expressions

The code of an expression shows the expression: constants and fields are words of their own,
every operator stands in parentheses with its operands, and a function in front of them. The
sign of a negative number is no operator, since no other number starts with a digit above
zero. So an expression is read back from its code in one way, whatever follows it.
-/

namespace EncoderTables.Generator

open Text Results

/-- A character of an operator: no letter or digit, no underscore, no blank between operands
and no parenthesis. -/
def isMark (c : Char) : Bool :=
  !(isLetter c || c == '_' || c.isDigit || c == ' ' || c == '(' || c == ')')

/-- An operator that is written before or between its operands. -/
def isOperator (symbol : String) : Bool := symbol != "" && symbol.toList.all isMark

/-- A character of a word: anything but a blank or a parenthesis. -/
def isInner (c : Char) : Bool := !(c == ' ' || c == '(' || c == ')')

/-- A function that is written before its operand: a word that starts with a letter or an
underscore. -/
def isApplied (symbol : String) : Bool := isFunctionName symbol && symbol.toList.all isInner

/-- An expression of whole numbers, truth values and parameters, with operators that can be
told from their operands. -/
def isOperation : Node → Bool
  | .literal value => match value with
    | .number _ | .truth _ => true
    | _ => false
  | .param _ | .isSet _ => true
  | .unary symbol inner => (isOperator symbol || isApplied symbol) && isOperation inner
  | .binary symbol left right => isOperator symbol && isOperation left && isOperation right
  | _ => false

/-- A digit that a number without leading zeros can start with. -/
def isLead (c : Char) : Bool := c.isDigit && c != '0'

/-- How the text of an expression starts: with no mark and no leading digit, or with the sign
of a number and its leading digit. -/
def Opens (text : List Char) : Prop :=
  (∃ c rest, text = c :: rest ∧ isMark c = false ∧ isLead c = false) ∨
    ∃ c rest, text = '-' :: c :: rest ∧ isLead c = true

/-- What starts as an expression does so with anything behind it. -/
theorem Opens.append {text : List Char} (opens : Opens text) (rest : List Char) :
    Opens (text ++ rest) := by
  rcases opens with ⟨c, more, rfl, noMark, noLead⟩ | ⟨c, more, rfl, lead⟩
  · exact Or.inl ⟨c, more ++ rest, rfl, noMark, noLead⟩
  · exact Or.inr ⟨c, more ++ rest, rfl, lead⟩

/-- A leading digit is no mark. -/
theorem isMark_of_isLead {c : Char} (lead : isLead c = true) : isMark c = false := by
  simp only [isLead, Bool.and_eq_true] at lead
  simp [isMark, lead.1]

/-- Marks before an expression are read in one way. -/
theorem eq_of_marks {marks signs text other : List Char} (one : ∀ c ∈ marks, isMark c = true)
    (two : ∀ c ∈ signs, isMark c = true) (opens : Opens text) (opensToo : Opens other)
    (same : marks ++ text = signs ++ other) : marks = signs ∧ text = other := by
  have found {row others tail more : List Char} {c d : Char} (each : ∀ c ∈ row, isMark c = true)
      (eachToo : ∀ c ∈ others, isMark c = true) (noMark : isMark c = false)
      (noSign : isMark d = false) (equal : row ++ c :: tail = others ++ d :: more) :
      row = others ∧ c :: tail = d :: more :=
    eq_of_span each eachToo (by simpa using noMark) (by simpa using noSign) equal
  have signed {row : List Char} (each : ∀ c ∈ row, isMark c = true) :
      ∀ c ∈ row ++ ['-'], isMark c = true := by
    have minus : isMark '-' = true := by decide +kernel
    simpa [or_imp, forall_and, minus] using each
  have moved (row tail : List Char) : row ++ '-' :: tail = (row ++ ['-']) ++ tail := by simp
  rcases opens with ⟨c, rest, rfl, noMark, noLead⟩ | ⟨c, rest, rfl, lead⟩ <;>
    rcases opensToo with ⟨d, more, rfl, noSign, noDigit⟩ | ⟨d, more, rfl, digit⟩
  · exact found one two noMark noSign same
  · rw [moved signs] at same
    obtain ⟨-, behind⟩ := found one (signed two) noMark (isMark_of_isLead digit) same
    rw [(List.cons.inj behind).1, digit] at noLead
    cases noLead
  · rw [moved marks] at same
    obtain ⟨-, behind⟩ := found (signed one) two (isMark_of_isLead lead) noSign same
    rw [← (List.cons.inj behind).1, lead] at noDigit
    cases noDigit
  · rw [moved marks, moved signs] at same
    obtain ⟨rows, behind⟩ := found (signed one) (signed two) (isMark_of_isLead lead)
      (isMark_of_isLead digit) same
    exact ⟨List.append_cancel_right rows, congrArg ('-' :: ·) behind⟩

/-- The words of expressions without operands. -/
inductive Leaf : Node → List Char → Prop where
  | truth : Leaf (.literal (.truth true)) "true".toList
  | falsehood : Leaf (.literal (.truth false)) "false".toList
  | number (value : Nat) : Leaf (.literal (.number value)) ('0' :: 'x' :: Nat.toDigits 16 value)
  | negative {value : Int} (negative : value < 0) :
    Leaf (.literal (.number value)) ('-' :: Nat.toDigits 10 value.natAbs)
  | param {name : String} (known : Parameters.isKnown name = true) :
    Leaf (.param name) ("ctx->params.".toList ++ name.toList)
  | flag {name : String} (optional : Parameters.isOptional name = true) :
    Leaf (.isSet name) ("ctx->params.".toList ++ (Parameters.presenceFlag name).toList)

/-- The texts of expressions. -/
inductive Spelled : Node → List Char → Prop where
  | leaf {node : Node} {word : List Char} (leaf : Leaf node word) : Spelled node word
  | applied {symbol : String} {inner : Node} {text : List Char} (applied : isApplied symbol = true)
    (operand : Spelled inner text) :
    Spelled (.unary symbol inner) (symbol.toList ++ '(' :: (text ++ [')']))
  | signed {symbol : String} {inner : Node} {text : List Char} (operator : isOperator symbol = true)
    (operand : Spelled inner text) :
    Spelled (.unary symbol inner) ('(' :: (symbol.toList ++ (text ++ [')'])))
  | joined {symbol : String} {left right : Node} {first second : List Char}
    (operator : isOperator symbol = true) (onLeft : Spelled left first)
    (onRight : Spelled right second) :
    Spelled (.binary symbol left right)
      ('(' :: (first ++ ' ' :: (symbol.toList ++ ' ' :: (second ++ [')']))))

/-- Where an expression ends: nothing follows, a blank or a closing parenthesis. -/
def EndsOperand (rest : List Char) : Prop := ∀ c ∈ rest.head?, c = ' ' ∨ c = ')'

/-- Known parameters are words. -/
theorem inner_of_isKnown {name : String} (known : Parameters.isKnown name = true) :
    ∀ c ∈ name.toList, isInner c = true := by
  have checked : ∀ field ∈ Arch.fieldWidths, field.1.toList.all isInner = true := by
    decide
  obtain ⟨width, listed, -⟩ := Parameters.fieldWidth_of_known known
  exact List.all_eq_true.mp (checked _ listed)

/-- The flags of optional parameters are words. -/
theorem inner_of_isOptional {name : String} (optional : Parameters.isOptional name = true) :
    ∀ c ∈ (Parameters.presenceFlag name).toList, isInner c = true := by
  have checked : ∀ listed ∈ Arch.optionalParameters,
      (Parameters.presenceFlag listed).toList.all isInner = true := by
    decide
  exact List.all_eq_true.mp (checked name (by simpa [Parameters.isOptional] using optional))

/-- No parameter has the name of a flag. -/
theorem ne_presenceFlag {name other : String} (known : Parameters.isKnown name = true)
    (optional : Parameters.isOptional other = true) : name ≠ Parameters.presenceFlag other := by
  have checked : ∀ listed ∈ Arch.optionalParameters,
      Parameters.isKnown (Parameters.presenceFlag listed) = false := by
    decide
  rintro rfl
  rw [checked other (by simpa [Parameters.isOptional] using optional)] at known
  cases known

/-- Decimal digits are parts of words. -/
theorem inner_of_isDigit {c : Char} (digit : c.isDigit = true) : isInner c = true := by
  simp only [isInner, Bool.not_eq_true', Bool.or_eq_false_iff, beq_eq_false_iff_ne]
  refine ⟨⟨?_, ?_⟩, ?_⟩ <;> rintro rfl <;> revert digit <;> decide

/-- Leaves are words. -/
theorem Leaf.inner {node : Node} {word : List Char} (leaf : Leaf node word) :
    ∀ c ∈ word, isInner c = true := by
  have start : ∀ c ∈ "ctx->params.".toList, isInner c = true :=
    List.all_eq_true.mp (by decide)
  cases leaf with
  | truth => exact List.all_eq_true.mp (by decide)
  | falsehood => exact List.all_eq_true.mp (by decide)
  | number value =>
    have digits : ∀ c ∈ Nat.toDigits 16 value, isInner c = true := by
      intro c member
      have checked : ∀ digit < 16, isInner digit.digitChar = true := by decide
      obtain ⟨digit, small, rfl⟩ := mem_hexDigits member
      exact checked digit small
    simpa [isInner] using digits
  | @negative value below =>
    have digits : ∀ c ∈ Nat.toDigits 10 value.natAbs, isInner c = true := fun c member =>
      inner_of_isDigit (Nat.isDigit_of_mem_toDigits (by decide) (by decide) member)
    simpa [isInner] using digits
  | param known =>
    intro c member
    exact (List.mem_append.mp member).elim (start c) (inner_of_isKnown known c)
  | flag optional =>
    intro c member
    exact (List.mem_append.mp member).elim (start c) (inner_of_isOptional optional c)

/-- A number above zero starts with a leading digit. -/
theorem exists_lead {n : Nat} (positive : 0 < n) :
    ∃ c rest, Nat.toDigits 10 n = c :: rest ∧ isLead c = true := by
  induction n using Nat.strongRecOn with
  | _ n inductionHypothesis =>
    by_cases small : n < 10
    · have checked : ∀ digit < 10, 0 < digit → isLead digit.digitChar = true := by decide
      exact ⟨n.digitChar, [], Nat.toDigits_of_lt_base small, checked n small positive⟩
    · obtain ⟨c, rest, digits, lead⟩ := inductionHypothesis (n / 10) (by omega) (by omega)
      refine ⟨c, rest ++ [(n % 10).digitChar], ?_, lead⟩
      rw [Nat.toDigits_of_base_le (by decide) (by omega), digits, List.cons_append]

/-- Leaves start as expressions do. -/
theorem Leaf.opens {node : Node} {word : List Char} (leaf : Leaf node word) : Opens word := by
  cases leaf with
  | truth => exact Or.inl ⟨'t', _, rfl, by decide, by decide⟩
  | falsehood => exact Or.inl ⟨'f', _, rfl, by decide, by decide⟩
  | number value => exact Or.inl ⟨'0', _, rfl, by decide +kernel, by decide⟩
  | negative below =>
    obtain ⟨c, rest, digits, lead⟩ := exists_lead (Int.natAbs_pos.mpr (Int.ne_of_lt below))
    exact Or.inr ⟨c, rest, by rw [digits], lead⟩
  | param known => exact Or.inl ⟨'c', _, rfl, by decide, by decide⟩
  | flag optional => exact Or.inl ⟨'c', _, rfl, by decide, by decide⟩

/-- Leaves are known by their words. -/
theorem Leaf.eq {first second : Node} {word : List Char} (one : Leaf first word)
    (two : Leaf second word) : first = second := by
  generalize same : word = other at two
  cases one with
  | truth => cases two <;> simp at same ⊢
  | falsehood => cases two <;> simp at same ⊢
  | number value =>
    cases two with
    | number other =>
      have digits : Nat.toDigits 16 value = Nat.toDigits 16 other := by simpa using same
      rw [hexDigits_injective digits]
    | _ => simp at same
  | @negative value below =>
    cases two with
    | @negative other low =>
      have digits : Nat.toDigits 10 value.natAbs = Nat.toDigits 10 other.natAbs := by
        simpa using same
      have magnitude := digits_injective digits
      have equal : value = other := by omega
      rw [equal]
    | _ => simp at same
  | @param name known =>
    cases two with
    | param knownToo => rw [String.toList_inj.mp (List.append_cancel_left same)]
    | flag optional =>
      exact absurd (String.toList_inj.mp (List.append_cancel_left same))
        (ne_presenceFlag known optional)
    | _ => simp at same
  | @flag name optional =>
    cases two with
    | param known =>
      exact absurd (String.toList_inj.mp (List.append_cancel_left same)).symm
        (ne_presenceFlag known optional)
    | @flag other optionalToo =>
      have flags := String.toList_inj.mp (List.append_cancel_left same)
      simp only [Parameters.presenceFlag, String.append_left_inj] at flags
      rw [flags]
    | _ => simp at same

/-- The name of a function is a word that starts as expressions do. -/
theorem opens_of_isApplied {symbol : String} (applied : isApplied symbol = true) :
    Opens symbol.toList ∧ ∀ c ∈ symbol.toList, isInner c = true := by
  have noLetter : ∀ code < 58, 48 ≤ code → inRanges letterRanges code = false := by
    decide +kernel
  simp only [isApplied, isFunctionName, Bool.and_eq_true, List.all_eq_true] at applied
  refine ⟨?_, applied.2⟩
  cases letters : symbol.toList with
  | nil => simp [letters] at applied
  | cons c rest =>
    have start : (isLetter c || c == '_') = true := by simpa [letters] using applied.1
    refine Or.inl ⟨c, rest, rfl, by simp [isMark, start], ?_⟩
    rw [isLead, Bool.and_eq_false_iff]
    by_contra lead
    simp only [not_or, Bool.not_eq_false] at lead
    rcases Bool.or_eq_true_iff.mp start with letter | underscore
    · have code := Char.isDigit_iff_toNat.mp lead.1
      rw [isLetter, noLetter c.toNat (Nat.lt_succ_of_le code.2) code.1] at letter
      cases letter
    · rw [eq_of_beq underscore] at lead
      exact absurd lead.1 (by decide)

/-- Expressions start with no mark, save for the sign of a number. -/
theorem Spelled.opens {node : Node} {text : List Char} (spelled : Spelled node text) :
    Opens text := by
  cases spelled with
  | leaf leaf => exact leaf.opens
  | applied applied operand => exact (opens_of_isApplied applied).1.append _
  | signed operator operand => exact Or.inl ⟨'(', _, rfl, by decide +kernel, by decide⟩
  | joined operator onLeft onRight => exact Or.inl ⟨'(', _, rfl, by decide +kernel, by decide⟩

/-- A word ends where an operand ends. -/
theorem EndsOperand.stop {rest : List Char} (ends : EndsOperand rest) :
    ∀ c ∈ rest.head?, isInner c = false := by
  intro c member
  rcases ends c member with rfl | rfl <;> rfl

/-- An operator is made of marks. -/
theorem marks_of_isOperator {symbol : String} (operator : isOperator symbol = true) :
    symbol.toList ≠ [] ∧ ∀ c ∈ symbol.toList, isMark c = true := by
  simpa [isOperator] using operator

/-- A blank is no mark. -/
theorem no_blank_of_isOperator {symbol : String} (operator : isOperator symbol = true) :
    ' ' ∉ symbol.toList := by
  intro member
  exact absurd ((marks_of_isOperator operator).2 ' ' member) (by decide +kernel)

/-- A word is not what starts with a parenthesis. -/
theorem word_ne_opening {word rest others : List Char} (opens : Opens word)
    (inner : ∀ c ∈ word, isInner c = true) : word ++ rest ≠ '(' :: others := by
  intro same
  obtain ⟨c, tail, rfl⟩ : ∃ c tail, word = c :: tail := by
    rcases opens with ⟨c, tail, rfl, -⟩ | ⟨c, tail, rfl, -⟩
    · exact ⟨c, tail, rfl⟩
    · exact ⟨'-', c :: tail, rfl⟩
  have first := inner c List.mem_cons_self
  rw [(List.cons.inj same).1] at first
  exact absurd first (by decide)

/-- A leaf is not the function of an operand. -/
theorem leaf_ne_applied {word name rest others : List Char} (inner : ∀ c ∈ word, isInner c = true)
    (innerToo : ∀ c ∈ name, isInner c = true) (ends : EndsOperand rest) :
    word ++ rest ≠ name ++ '(' :: others := by
  intro same
  obtain ⟨-, rfl⟩ := eq_of_span inner innerToo ends.stop (by simp; decide) same
  simp [EndsOperand] at ends

/-- An operator before its operand is not the start of a first operand. -/
theorem signed_ne_operand {symbol : String} {text first rest others : List Char}
    (operator : isOperator symbol = true) (opens : Opens text) (opensToo : Opens first) :
    symbol.toList ++ (text ++ rest) ≠ first ++ others := by
  intro same
  obtain ⟨filled, marks⟩ := marks_of_isOperator operator
  have none : ∀ c ∈ ([] : List Char), isMark c = true := by simp
  exact filled (eq_of_marks marks none (opens.append rest) (opensToo.append others) same).1

/-- An expression is read in one way, whatever follows it. -/
theorem Spelled.append {first second : Node} {text other rest others : List Char}
    (one : Spelled first text) (two : Spelled second other) (ends : EndsOperand rest)
    (endsToo : EndsOperand others) (same : text ++ rest = other ++ others) :
    first = second ∧ rest = others := by
  induction one generalizing second other rest others with
  | leaf leaf =>
    cases two with
    | leaf leafToo =>
      obtain ⟨words, behind⟩ := eq_of_span leaf.inner leafToo.inner ends.stop endsToo.stop same
      exact ⟨leaf.eq (words ▸ leafToo), behind⟩
    | applied applied operand =>
      simp only [List.append_assoc, List.cons_append] at same
      exact absurd same (leaf_ne_applied leaf.inner (opens_of_isApplied applied).2 ends)
    | signed operator operand => exact absurd same (word_ne_opening leaf.opens leaf.inner)
    | joined operator onLeft onRight => exact absurd same (word_ne_opening leaf.opens leaf.inner)
  | applied applied operand inductionHypothesis =>
    obtain ⟨opens, inner⟩ := opens_of_isApplied applied
    simp only [List.append_assoc, List.cons_append] at same
    cases two with
    | leaf leafToo => exact absurd same.symm (leaf_ne_applied leafToo.inner inner endsToo)
    | applied appliedToo operandToo =>
      simp only [List.append_assoc, List.cons_append] at same
      obtain ⟨words, behind⟩ := eq_of_span inner (opens_of_isApplied appliedToo).2
        (by simp; decide) (by simp; decide) same
      obtain ⟨inners, further⟩ := inductionHypothesis operandToo (by simp [EndsOperand])
        (by simp [EndsOperand]) (List.cons.inj behind).2
      rw [String.toList_inj.mp words, inners]
      exact ⟨rfl, (List.cons.inj further).2⟩
    | signed operator operandToo => exact absurd same (word_ne_opening opens inner)
    | joined operator onLeft onRight => exact absurd same (word_ne_opening opens inner)
  | signed operator operand inductionHypothesis =>
    cases two with
    | leaf leafToo => exact absurd same.symm (word_ne_opening leafToo.opens leafToo.inner)
    | applied applied operandToo =>
      obtain ⟨opens, inner⟩ := opens_of_isApplied applied
      simp only [List.append_assoc] at same
      exact absurd same.symm (word_ne_opening opens inner)
    | signed operatorToo operandToo =>
      simp only [List.append_assoc, List.cons_append, List.cons.injEq, true_and] at same
      obtain ⟨symbols, behind⟩ := eq_of_marks (marks_of_isOperator operator).2
        (marks_of_isOperator operatorToo).2 (operand.opens.append _) (operandToo.opens.append _)
        same
      obtain ⟨inners, further⟩ := inductionHypothesis operandToo (by simp [EndsOperand])
        (by simp [EndsOperand]) behind
      rw [String.toList_inj.mp symbols, inners]
      exact ⟨rfl, (List.cons.inj further).2⟩
    | joined operatorToo onLeft onRight =>
      simp only [List.append_assoc, List.cons_append, List.cons.injEq, true_and] at same
      exact absurd same (signed_ne_operand operator operand.opens onLeft.opens)
  | joined operator onLeft onRight leftHypothesis rightHypothesis =>
    cases two with
    | leaf leafToo => exact absurd same.symm (word_ne_opening leafToo.opens leafToo.inner)
    | applied applied operandToo =>
      obtain ⟨opens, inner⟩ := opens_of_isApplied applied
      simp only [List.append_assoc] at same
      exact absurd same.symm (word_ne_opening opens inner)
    | signed operatorToo operandToo =>
      simp only [List.append_assoc, List.cons_append, List.cons.injEq, true_and] at same
      exact absurd same.symm (signed_ne_operand operatorToo operandToo.opens onLeft.opens)
    | joined operatorToo onLeftToo onRightToo =>
      simp only [List.append_assoc, List.cons_append, List.cons.injEq, true_and] at same
      obtain ⟨lefts, behind⟩ := leftHypothesis onLeftToo (by simp [EndsOperand])
        (by simp [EndsOperand]) same
      obtain ⟨symbols, further⟩ := eq_of_separated (no_blank_of_isOperator operator)
        (no_blank_of_isOperator operatorToo) (List.cons.inj behind).2
      obtain ⟨rights, last⟩ := rightHypothesis onRightToo (by simp [EndsOperand])
        (by simp [EndsOperand]) further
      rw [String.toList_inj.mp symbols, lefts, rights]
      exact ⟨rfl, (List.cons.inj last).2⟩

/-- An operator is not the name of a function. -/
theorem isFunctionName_of_isOperator {symbol : String} (operator : isOperator symbol = true) :
    isFunctionName symbol = false := by
  obtain ⟨filled, marks⟩ := marks_of_isOperator operator
  obtain ⟨c, rest, letters⟩ := List.exists_cons_of_ne_nil filled
  have first := marks c (letters ▸ List.mem_cons_self)
  simp only [isMark, Bool.not_eq_true', Bool.or_eq_false_iff] at first
  simp [isFunctionName, letters, first]

/-- The code of a constant is a leaf. -/
theorem leaf_of_constant {value : Scalar} {code : String}
    (operation : isOperation (.literal value) = true) (found : constantText value = .ok code) :
    Leaf (.literal value) code.toList := by
  cases value with
  | number value =>
    cases found
    split
    · next below =>
      have digits : (toString value).toList = '-' :: Nat.toDigits 10 value.natAbs := by
        have printed : toString value = value.repr := rfl
        rw [printed, toList_repr_int, if_pos below]
      exact digits ▸ .negative below
    · next above =>
      obtain ⟨magnitude, rfl⟩ := Int.eq_ofNat_of_zero_le (Int.not_lt.mp above)
      simpa [hexadecimal] using Leaf.number magnitude
  | truth value =>
    cases value with
    | true =>
      cases found
      exact .truth
    | false =>
      cases found
      exact .falsehood
  | _ => cases operation

/-- A parameter that is used is known. -/
theorem isKnown_of_checkUse {owner : Option String} {name : String} {value : Unit}
    (used : checkUse owner name = .ok value) : Parameters.isKnown name = true := by
  unfold checkUse at used
  split at used
  · next known => exact known
  · cases used

/-- The code of an expression is its text. -/
theorem spelled_of_code {owner : Option String} : (node : Node) → {code : String} →
    isOperation node = true → expressionCode owner node = .ok code → Spelled node code.toList
  | .literal value, code, operation, found => .leaf (leaf_of_constant operation found)
  | .param name, code, _, found => by
    simp only [expressionCode, bind_ok_iff, pure_ok_iff] at found
    obtain ⟨_, used, rfl⟩ := found
    rw [fieldAccess, String.toList_append]
    exact .leaf (.param (isKnown_of_checkUse used))
  | .isSet name, code, _, found => by
    rw [expressionCode] at found
    split at found
    · cases found
    · next optional =>
      simp only [bind_ok_iff, pure_ok_iff] at found
      obtain ⟨_, -, rfl⟩ := found
      rw [fieldAccess, String.toList_append]
      exact .leaf (.flag (by simpa using optional))
  | .unary symbol inner, code, operation, found => by
    simp only [isOperation, Bool.and_eq_true, Bool.or_eq_true] at operation
    simp only [expressionCode, bind_ok_iff] at found
    obtain ⟨operand, inside, written⟩ := found
    have spelled := spelled_of_code inner operation.2 inside
    split at written
    · simp at written
    · split at written
      · next function =>
        simp only [pure_ok_iff] at written
        subst written
        rcases operation.1 with operator | applied
        · rw [isFunctionName_of_isOperator operator] at function
          cases function
        · simpa using Spelled.applied applied spelled
      · next noFunction =>
        simp only [pure_ok_iff] at written
        subst written
        rcases operation.1 with operator | applied
        · simpa using Spelled.signed operator spelled
        · rw [isApplied, Bool.and_eq_true] at applied
          exact absurd applied.1 noFunction
  | .binary symbol left right, code, operation, found => by
    simp only [isOperation, Bool.and_eq_true] at operation
    simp only [expressionCode, bind_ok_iff, pure_ok_iff] at found
    obtain ⟨first, onLeft, second, onRight, rfl⟩ := found
    have spelled := Spelled.joined operation.1.1 (spelled_of_code left operation.1.2 onLeft)
      (spelled_of_code right operation.2 onRight)
    simpa using spelled
  | .bare _, _, operation, _ | .group _, _, operation, _ | .literalList _, _, operation, _
  | .write _ _, _, operation, _ | .packed _ _, _, operation, _ | .branch _ _ _, _, operation, _
  | .abort _, _, operation, _ | .routine _ _, _, operation, _ | .call _, _, operation, _
  | .unordered _ _, _, operation, _ => by cases operation

end EncoderTables.Generator
