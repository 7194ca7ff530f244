import EncoderTables.Proofs.Encoding.Unwrapped
import EncoderTables.Proofs.Generator.Attempts
import EncoderTables.Proofs.Generator.ExpressionTexts

/-!
# Texts of actions

The texts of actions are read in one way. Every statement ends by itself and starts with
what it does; a packed value is told from an operation by its shifts, which are written in
decimal. The functions of shared routines and of unordered writes stand for what has been
requested under their numbers. So a text determines its actions, up to the names of routines
and up to single unordered writes, which are performed as they stand.
-/

namespace EncoderTables.Generator

open Text Results

/-- The field of a packed value, masked to its width. -/
def maskedField (value : Node) (width : Int) : Node :=
  .binary "&" value (.literal (.number (Bits.mask width.toNat : Nat)))

/-- A text that is shifted by a number of places. -/
def shiftedText (text : List Char) (places : Nat) : List Char :=
  '(' :: (text ++ ' ' :: '<' :: '<' :: ' ' :: (Nat.toDigits 10 places ++ [')']))

/-- The texts of packed values: each is masked and shifted behind all later ones. -/
inductive Packing : List Node → List Int → List Char → Prop where
  | last {value : Node} {width : Int} {text : List Char} (positive : 0 ≤ width)
    (field : Spelled (maskedField value width) text) :
    Packing [value] [width] (shiftedText text 0)
  | more {value : Node} {values : List Node} {width : Int} {widths : List Int}
    {text others : List Char} (places : Nat) (positive : 0 ≤ width)
    (field : Spelled (maskedField value width) text) (packing : Packing values widths others) :
    Packing (value :: values) (width :: widths)
      (shiftedText text places ++ ' ' :: '|' :: ' ' :: others)

/-- Masks of different widths are different. -/
theorem mask_injective : Function.Injective Bits.mask := by
  intro first second same
  have one := Bits.capacity_pos first
  have two := Bits.capacity_pos second
  have capacities : Bits.capacity first = Bits.capacity second := by
    unfold Bits.mask at same
    omega
  rw [Bits.capacity, Bits.capacity, Nat.one_shiftLeft, Nat.one_shiftLeft] at capacities
  exact Nat.pow_right_injective (le_refl 2) capacities

/-- Masked fields are known by their values and their widths. -/
theorem eq_of_maskedField {value other : Node} {width size : Int} (positive : 0 ≤ width)
    (positiveToo : 0 ≤ size) (same : maskedField value width = maskedField other size) :
    value = other ∧ width = size := by
  simp only [maskedField, Node.binary.injEq, Node.literal.injEq, Scalar.number.injEq,
    true_and] at same
  have bits := mask_injective (Int.ofNat.inj same.2)
  exact ⟨same.1, by omega⟩

/-- A shifted text is read in one way, whatever follows it. -/
theorem shiftedText_append {first second : Node} {text other rest others : List Char}
    {places further : Nat} (one : Spelled first text) (two : Spelled second other)
    (same : shiftedText text places ++ rest = shiftedText other further ++ others) :
    first = second ∧ rest = others := by
  simp only [shiftedText, List.cons_append, List.append_assoc, List.cons.injEq, true_and] at same
  obtain ⟨fields, behind⟩ := one.append two (by simp [EndsOperand]) (by simp [EndsOperand]) same
  simp only [List.nil_append, List.cons.injEq, true_and] at behind
  exact ⟨fields, (eq_of_separated (not_mem_digits (by decide) places)
    (not_mem_digits (by decide) further) behind).2⟩

/-- The word of a leaf is not a row of decimal digits. -/
theorem Leaf.exists_other {node : Node} {word : List Char} (leaf : Leaf node word) :
    ∃ c ∈ word, c.isDigit = false := by
  cases leaf with
  | truth => exact ⟨'t', by simp, by decide⟩
  | falsehood => exact ⟨'f', by simp, by decide⟩
  | number value => exact ⟨'x', by simp, by decide⟩
  | negative below => exact ⟨'-', by simp, by decide⟩
  | param known => exact ⟨'.', by simp, by decide⟩
  | flag optional => exact ⟨'.', by simp, by decide⟩

/-- A number in decimal before a parenthesis is not an expression. -/
theorem digits_ne_spelled {node : Node} {text rest others : List Char} (spelled : Spelled node text)
    (places : Nat) (ends : EndsOperand others) :
    Nat.toDigits 10 places ++ ')' :: rest ≠ text ++ others := by
  intro same
  have digits : ∀ c ∈ Nat.toDigits 10 places, isInner c = true := fun c member =>
    inner_of_isDigit (Nat.isDigit_of_mem_toDigits (by decide) (by decide) member)
  obtain ⟨first, more, start⟩ := List.exists_cons_of_ne_nil
    (Nat.toDigits_ne_nil : Nat.toDigits 10 places ≠ [])
  have noOpening : '(' ≠ first := by
    rintro rfl
    exact absurd (digits '(' (start ▸ List.mem_cons_self)) (by decide)
  cases spelled with
  | leaf leaf =>
    obtain ⟨words, -⟩ := eq_of_span digits leaf.inner (by simp; decide) ends.stop same
    obtain ⟨c, member, other⟩ := leaf.exists_other
    rw [← words] at member
    rw [Nat.isDigit_of_mem_toDigits (by decide) (by decide) member] at other
    cases other
  | applied applied operand =>
    simp only [List.append_assoc, List.cons_append] at same
    obtain ⟨-, behind⟩ := eq_of_span digits (opens_of_isApplied applied).2 (by simp; decide)
      (by simp; decide) same
    simp at behind
  | signed operator operand =>
    rw [start] at same
    exact noOpening (List.cons.inj same).1.symm
  | joined operator onLeft onRight =>
    rw [start] at same
    exact noOpening (List.cons.inj same).1.symm

/-- A shifted text is not the text of an expression. -/
theorem shiftedText_ne_spelled {first second : Node} {text other rest others : List Char}
    {places : Nat} (one : Spelled first text) (two : Spelled second other) :
    shiftedText text places ++ rest ≠ other ++ others := by
  intro same
  simp only [shiftedText, List.cons_append, List.append_assoc] at same
  cases two with
  | leaf leaf => exact word_ne_opening leaf.opens leaf.inner same.symm
  | applied applied operand =>
    obtain ⟨opens, inner⟩ := opens_of_isApplied applied
    rw [List.append_assoc] at same
    exact word_ne_opening opens inner same.symm
  | signed operator operand =>
    simp only [List.cons_append, List.append_assoc, List.cons.injEq, true_and] at same
    exact signed_ne_operand operator operand.opens one.opens same.symm
  | joined operator onLeft onRight =>
    simp only [List.cons_append, List.append_assoc, List.cons.injEq, true_and] at same
    obtain ⟨-, behind⟩ := one.append onLeft (by simp [EndsOperand]) (by simp [EndsOperand]) same
    have unbroken : ' ' ∉ ['<', '<'] := by simp
    obtain ⟨-, further⟩ := eq_of_separated unbroken (no_blank_of_isOperator operator)
      (List.cons.inj behind).2
    exact digits_ne_spelled onRight places (by simp [EndsOperand]) further

/-- Packed values start with a shifted text. -/
theorem Packing.exists_shifted {values : List Node} {widths : List Int} {text : List Char}
    (packing : Packing values widths text) : ∃ node field places behind,
      Spelled node field ∧ text = shiftedText field places ++ behind := by
  cases packing with
  | last positive field => exact ⟨_, _, 0, [], field, by simp⟩
  | more places positive field packing => exact ⟨_, _, places, _, field, rfl⟩

/-- Packed values are read in one way, whatever follows them. -/
theorem Packing.append {values others : List Node} {widths sizes : List Int}
    {text other rest further : List Char} (one : Packing values widths text)
    (two : Packing others sizes other)
    (same : text ++ ')' :: rest = other ++ ')' :: further) :
    values = others ∧ widths = sizes ∧ rest = further := by
  induction one generalizing others sizes other with
  | last positive field =>
    cases two with
    | last positiveToo fieldToo =>
      obtain ⟨fields, behind⟩ := shiftedText_append field fieldToo same
      obtain ⟨rfl, rfl⟩ := eq_of_maskedField positive positiveToo fields
      exact ⟨rfl, rfl, (List.cons.inj behind).2⟩
    | more places positiveToo fieldToo packing =>
      rw [List.append_assoc] at same
      obtain ⟨-, behind⟩ := shiftedText_append field fieldToo same
      simp at behind
  | more places positive field packing inductionHypothesis =>
    rw [List.append_assoc] at same
    cases two with
    | last positiveToo fieldToo =>
      obtain ⟨-, behind⟩ := shiftedText_append field fieldToo same
      simp at behind
    | more further positiveToo fieldToo packingToo =>
      rw [List.append_assoc] at same
      obtain ⟨fields, behind⟩ := shiftedText_append field fieldToo same
      obtain ⟨rfl, rfl⟩ := eq_of_maskedField positive positiveToo fields
      simp only [List.cons_append, List.cons.injEq, true_and] at behind
      obtain ⟨rfl, rfl, last⟩ := inductionHypothesis packingToo behind
      exact ⟨rfl, rfl, last⟩

/-- What a statement does that holds no other statements. -/
inductive Start where
  | write | abort | routine | ordering

/-- How a statement starts. -/
def Start.text : Start → List Char
  | write => "evoasm_x64_enc_ctx_write".toList
  | abort => "evoasm_x64_enc_ctx_error(ctx, ".toList
  | routine => "if(!evoasm_x64_func_".toList
  | ordering => "if(!evoasm_x64_prefs_".toList

/-- The call of a routine starts with the name of its function. -/
theorem Start.text_routine :
    Start.routine.text = "if(!".toList ++ ("evoasm_x64_".toList ++ "func_".toList) := by
  decide

/-- The call of unordered writes starts with the name of their function. -/
theorem Start.text_ordering :
    Start.ordering.text = "if(!".toList ++ ("evoasm_x64_".toList ++ "prefs_".toList) := by
  decide

/-- What stands behind the name of a shared function and its arguments. -/
def failure : List Char := ") \x7b\ngoto error;\n\x7d\n".toList

/-- The number of bits of a write, and the text behind it. -/
def writeBody (size : Int) (text : List Char) : List Char :=
  (toString size).toList ++ '(' :: ("ctx, ".toList ++ (text ++ ')' :: ';' :: ['\n']))

/-- The number of a shared function with its arguments, and what to do when it fails. -/
def callBody (id : Nat) (arguments : List Char) : List Char :=
  Nat.toDigits 10 id ++ '(' :: (arguments ++ ')' :: failure)

/-- The texts of statements that hold no other statements, behind their starts. The functions
that they call have the numbers that the ledgers of an emission hold. -/
inductive Statement (emission : Emission) : Node → Start → List Char → Prop where
  | write {value : Node} {text : List Char} (size : Int) (spelled : Spelled value text) :
    Statement emission (.write value size) .write (writeBody size text)
  | packed {values : List Node} {sizes : List Scalar} {widths : List Int} {text : List Char}
    (whole : sizes.map Scalar.whole? = widths.map some)
    (packing : Packing values widths text) :
    Statement emission (.packed values sizes) .write (writeBody (Node.totalWidth sizes) text)
  | abort (message : String) :
    Statement emission (.abort message) .abort
      ((literalText message).toList ++ ");\ngoto error;\n".toList)
  | call {routine : Node} {id : Nat} (found : emission.routines.id? routine = some id) :
    Statement emission (.call routine.unwrapped) .routine (callBody id "ctx".toList)
  | unordered {writes : List Node} {id : Nat} {order : String}
    (found : emission.orderings.id? writes = some id)
    (known : Parameters.isKnown order = true) :
    Statement emission (.unordered (Node.unwrappedAll writes) (.text order)) .ordering
      (callBody id ("ctx, ctx->params.".toList ++ order.toList))

/-- Texts that start differently are different. -/
theorem ne_of_take {first second : List Char} (count : Nat) (rest others : List Char)
    (enough : count ≤ first.length := by decide) (enoughToo : count ≤ second.length := by decide)
    (apart : first.take count ≠ second.take count := by decide) :
    first ++ rest ≠ second ++ others := by
  intro same
  apply apart
  have starts := congrArg (List.take count) same
  rwa [List.take_append_of_le_length enough, List.take_append_of_le_length enoughToo] at starts

/-- Statements of different kinds start differently. -/
theorem Start.append {first second : Start} {rest others : List Char}
    (same : first.text ++ rest = second.text ++ others) : first = second ∧ rest = others := by
  by_cases equal : first = second
  · subst equal
    exact ⟨rfl, List.append_cancel_left same⟩
  · cases first <;> cases second <;>
      first
      | exact absurd rfl equal
      | exact absurd same (ne_of_take 1 _ _)
      | exact absurd same (ne_of_take 20 _ _)

namespace Emission

/-- Routines with the same number are the same. -/
theorem same_of_routine {emission : Emission} {id : Nat} {first second : Node}
    (one : emission.routines.id? first = some id) (two : emission.routines.id? second = some id) :
    first.same second = true := by
  obtain ⟨_, key, -⟩ := List.findIdx?_eq_some_iff_getElem.mp one
  obtain ⟨_, keyToo, -⟩ := List.findIdx?_eq_some_iff_getElem.mp two
  exact Node.same_trans.1 _ _ (Node.same_symm.1 _ _ key) _ keyToo

/-- Unordered writes with the same number are the same. -/
theorem sameAll_of_ordering {emission : Emission} {id : Nat} {first second : List Node}
    (one : emission.orderings.id? first = some id)
    (two : emission.orderings.id? second = some id) : Node.sameAll first second = true := by
  obtain ⟨_, key, -⟩ := List.findIdx?_eq_some_iff_getElem.mp one
  obtain ⟨_, keyToo, -⟩ := List.findIdx?_eq_some_iff_getElem.mp two
  rw [Node.beq_eq_sameAll] at key keyToo
  exact Node.same_trans.2 _ _ (Node.same_symm.2 _ _ key) _ keyToo

end Emission

/-- A write tells its number of bits. -/
theorem writeBody_append {size width : Int} {text other rest others : List Char}
    (same : writeBody size text ++ rest = writeBody width other ++ others) :
    size = width ∧ text ++ ')' :: ';' :: '\n' :: rest = other ++ ')' :: ';' :: '\n' :: others := by
  have shown (value : Int) : (toString value).toList = value.repr.toList := rfl
  have digits {value : Int} : '(' ∉ (toString value).toList := by
    rw [shown, toList_repr_int]
    split
    · rw [List.mem_cons, not_or]
      exact ⟨by decide, not_mem_digits (by decide) _⟩
    · exact not_mem_digits (by decide) _
  simp only [writeBody, List.append_assoc, List.cons_append, List.nil_append] at same
  obtain ⟨sizes, behind⟩ := eq_of_separated digits digits same
  rw [shown, shown, toList_repr_int, toList_repr_int] at sizes
  exact ⟨eq_of_signed (by decide) sizes, List.append_cancel_left behind⟩

/-- A call tells the number of its function. -/
theorem callBody_append {id number : Nat} {arguments more rest others : List Char}
    (one : ')' ∉ arguments) (two : ')' ∉ more)
    (same : callBody id arguments ++ rest = callBody number more ++ others) :
    id = number ∧ arguments = more ∧ rest = others := by
  simp only [callBody, List.append_assoc, List.cons_append] at same
  obtain ⟨ids, behind⟩ := eq_of_separated (not_mem_digits (by decide) id)
    (not_mem_digits (by decide) number) same
  obtain ⟨equal, last⟩ := eq_of_separated one two behind
  exact ⟨digits_injective ids, equal, List.append_cancel_left last⟩

/-- A text between quotation marks is read in one way, whatever follows it. -/
theorem literalText_append {first second : String} {rest others : List Char}
    (same : (literalText first).toList ++ rest = (literalText second).toList ++ others) :
    first = second ∧ rest = others := by
  have spelled (c : Char) :
      Spelling '"' c (if c = '\\' || c = '"' then ['\\', c] else [c]) := by
    split
    · next special => exact .escaped (by simpa using special)
    · next plain =>
      simp only [Bool.or_eq_true, decide_eq_true_eq, not_or] at plain
      exact .plain plain.2 plain.1
  simp only [literalText, String.toList_append, String.toList_ofList, List.append_assoc] at same
  obtain ⟨letters, behind⟩ := spelled_append (Or.inr rfl) spelled (List.append_cancel_left same)
  exact ⟨String.toList_inj.mp letters, behind⟩

/-- Statements of one kind are read in one way, whatever follows them. -/
theorem Statement.append {emission : Emission} {first second : Node} {start : Start}
    {text other rest others : List Char} (one : Statement emission first start text)
    (two : Statement emission second start other) (same : text ++ rest = other ++ others) :
    first.same second = true ∧ rest = others := by
  have ends (tail : List Char) : EndsOperand (')' :: tail) := by simp [EndsOperand]
  cases one with
  | write size spelled =>
    cases two with
    | write width spelledToo =>
      obtain ⟨rfl, behind⟩ := writeBody_append same
      obtain ⟨rfl, further⟩ := spelled.append spelledToo (ends _) (ends _) behind
      simp only [List.cons.injEq, true_and] at further
      exact ⟨Node.same_refl _, further⟩
    | packed whole packing =>
      obtain ⟨-, behind⟩ := writeBody_append same
      obtain ⟨_, field, places, tail, field, rfl⟩ := packing.exists_shifted
      rw [List.append_assoc] at behind
      exact absurd behind.symm (shiftedText_ne_spelled field spelled)
  | packed whole packing =>
    cases two with
    | write width spelled =>
      obtain ⟨-, behind⟩ := writeBody_append same
      obtain ⟨_, field, places, tail, field, rfl⟩ := packing.exists_shifted
      rw [List.append_assoc] at behind
      exact absurd behind (shiftedText_ne_spelled field spelled)
    | packed wholeToo packingToo =>
      obtain ⟨-, behind⟩ := writeBody_append same
      obtain ⟨rfl, rfl, further⟩ := packing.append packingToo behind
      simp only [List.cons.injEq, true_and] at further
      exact ⟨by simp [Node.same, Node.sameAll_refl, whole, wholeToo], further⟩
  | abort message =>
    cases two with
    | abort other =>
      rw [List.append_assoc, List.append_assoc] at same
      obtain ⟨rfl, behind⟩ := literalText_append same
      exact ⟨Node.same_refl _, List.append_cancel_left behind⟩
  | call found =>
    cases two with
    | call foundToo =>
      obtain ⟨rfl, -, behind⟩ := callBody_append (by decide) (by decide) same
      exact ⟨Node.same_unwrapped.1 _ _ (Emission.same_of_routine found foundToo), behind⟩
  | unordered found known =>
    cases two with
    | unordered foundToo knownToo =>
      have closing {order : String} (known : Parameters.isKnown order = true) :
          ')' ∉ "ctx, ctx->params.".toList ++ order.toList := by
        rw [List.mem_append, not_or]
        exact ⟨by decide, fun member =>
          absurd (inner_of_isKnown known ')' member) (by decide)⟩
      obtain ⟨rfl, orders, behind⟩ := callBody_append (closing known) (closing knownToo) same
      have writes := Node.same_unwrapped.2 _ _ (Emission.sameAll_of_ordering found foundToo)
      rw [String.toList_inj.mp (List.append_cancel_left orders)]
      exact ⟨by simp [Node.same, writes], behind⟩

/-- The end of a branch: nothing else is done, or the other actions are performed. -/
def closing (otherwise : List Node) (text : List Char) : List Char :=
  if otherwise.isEmpty then "\x7d\n".toList
  else "\x7d else \x7b\n".toList ++ (text ++ "\x7d\n".toList)

/-- The texts of actions. -/
inductive Performed (emission : Emission) : List Node → List Char → Prop where
  | nil : Performed emission [] []
  | statement {node : Node} {nodes : List Node} {start : Start} {text behind : List Char}
    (statement : Statement emission node start text) (rest : Performed emission nodes behind) :
    Performed emission (node :: nodes) (start.text ++ (text ++ behind))
  | branch {condition : Node} {taken otherwise nodes : List Node}
    {test first second behind : List Char} (spelled : Spelled condition test)
    (onTaken : Performed emission taken first) (onOtherwise : Performed emission otherwise second)
    (rest : Performed emission nodes behind) :
    Performed emission (.branch condition taken otherwise :: nodes)
      ("if(".toList ++ (test ++ (") \x7b\n".toList ++
        (first ++ (closing otherwise second ++ behind)))))

/-- Where actions end: nothing follows, or a block is closed. -/
def EndsBlock (rest : List Char) : Prop := ∀ c ∈ rest.head?, c = '\x7d'

/-- A branch is not a statement that holds no others. -/
theorem branch_ne_start {condition : Node} {test rest others : List Char} {start : Start}
    (spelled : Spelled condition test) :
    "if(".toList ++ (test ++ rest) ≠ start.text ++ others := by
  have noCall {tail more : List Char} :
      "if(".toList ++ (test ++ rest) ≠ "if(!".toList ++ (tail ++ more) := by
    intro same
    have mark : test ++ rest = '!' :: (tail ++ more) := List.append_cancel_left same
    rcases spelled.opens.append rest with ⟨c, further, opens, noMark, -⟩ | ⟨c, further, opens, -⟩
    · rw [mark, List.cons.injEq] at opens
      rw [← opens.1] at noMark
      exact absurd noMark (by decide +kernel)
    · rw [mark, List.cons.injEq] at opens
      exact absurd opens.1 (by decide)
  intro same
  cases start with
  | write => exact absurd same (ne_of_take 1 _ _)
  | abort => exact absurd same (ne_of_take 1 _ _)
  | routine =>
    rw [Start.text_routine, List.append_assoc] at same
    exact noCall same
  | ordering =>
    rw [Start.text_ordering, List.append_assoc] at same
    exact noCall same

/-- Where a block ends, nothing else starts. -/
theorem EndsBlock.ne {rest start others : List Char} (ends : EndsBlock rest)
    (letter : start.head?.any (· != '\x7d') = true := by decide) : rest ≠ start ++ others := by
  rintro rfl
  cases start with
  | nil => cases letter
  | cons c more => exact (bne_iff_ne.mp letter) (ends c rfl)

/-- No statement starts as a block ends. -/
theorem Start.opens (start : Start) : start.text.head?.any (· != '\x7d') = true := by
  cases start <;> decide

/-- The end of a branch closes its first block. -/
theorem endsBlock_closing (otherwise : List Node) (text rest : List Char) :
    EndsBlock (closing otherwise text ++ rest) := by
  unfold closing
  split <;> simp [EndsBlock]

/-- A closed block ends its actions. -/
theorem endsBlock_closed (rest : List Char) : EndsBlock ("\x7d\n".toList ++ rest) := by
  simp [EndsBlock]

/-- When the other actions of branches are read in one way, so are the ends of the branches. -/
theorem closing_append {first second : List Node} {text other : List Char}
    (read : ∀ {rest others : List Char}, EndsBlock rest → EndsBlock others →
      text ++ rest = other ++ others → Node.sameAll first second = true ∧ rest = others)
    {rest others : List Char} (same : closing first text ++ rest = closing second other ++ others) :
    Node.sameAll first second = true ∧ rest = others := by
  have none (written : List Char) : closing [] written = "\x7d\n".toList := rfl
  have some (node : Node) (nodes : List Node) (written : List Char) :
      closing (node :: nodes) written =
        "\x7d else \x7b\n".toList ++ (written ++ "\x7d\n".toList) := rfl
  cases first with
  | nil =>
    cases second with
    | nil => exact ⟨rfl, List.append_cancel_left same⟩
    | cons node nodes =>
      simp only [none, some, List.append_assoc] at same
      exact absurd same (ne_of_take 2 _ _)
  | cons node nodes =>
    cases second with
    | nil =>
      simp only [none, some, List.append_assoc] at same
      exact absurd same.symm (ne_of_take 2 _ _)
    | cons another more =>
      simp only [some, List.append_assoc] at same
      obtain ⟨equal, later⟩ := read (endsBlock_closed _) (endsBlock_closed _)
        (List.append_cancel_left same)
      exact ⟨equal, List.append_cancel_left later⟩

/-- Actions are read in one way, up to the end of their block. -/
theorem Performed.append {emission : Emission} {first second : List Node}
    {text other rest others : List Char} (one : Performed emission first text)
    (two : Performed emission second other) (ends : EndsBlock rest) (endsToo : EndsBlock others)
    (same : text ++ rest = other ++ others) :
    Node.sameAll first second = true ∧ rest = others := by
  induction one generalizing second other rest others with
  | nil =>
    cases two with
    | nil => exact ⟨rfl, same⟩
    | @statement _ _ start _ _ statement further =>
      simp only [List.append_assoc] at same
      exact absurd same (ends.ne start.opens)
    | branch spelled onTaken onOtherwise further =>
      simp only [List.append_assoc] at same
      exact absurd same ends.ne
  | @statement _ _ start _ _ statement further inductionHypothesis =>
    simp only [List.append_assoc] at same
    cases two with
    | nil => exact absurd same.symm (endsToo.ne start.opens)
    | statement statementToo furtherToo =>
      simp only [List.append_assoc] at same
      obtain ⟨rfl, behind⟩ := Start.append same
      obtain ⟨head, later⟩ := statement.append statementToo behind
      obtain ⟨tail, last⟩ := inductionHypothesis furtherToo ends endsToo later
      exact ⟨by rw [Node.sameAll, head, tail]; rfl, last⟩
    | branch spelled onTaken onOtherwise further =>
      simp only [List.append_assoc] at same
      exact absurd same.symm (branch_ne_start spelled)
  | @branch condition taken otherwise _ test one two behind spelled onTaken onOtherwise further
      takenHypothesis otherwiseHypothesis inductionHypothesis =>
    simp only [List.append_assoc] at same
    cases two with
    | nil => exact absurd same.symm endsToo.ne
    | statement statementToo furtherToo =>
      simp only [List.append_assoc] at same
      exact absurd same (branch_ne_start spelled)
    | @branch condition taken otherwiseToo _ testToo oneToo twoToo behindToo spelledToo onTakenToo
        onOtherwiseToo furtherToo =>
      simp only [List.append_assoc] at same
      obtain ⟨rfl, blocks⟩ := spelled.append spelledToo (by simp [EndsOperand])
        (by simp [EndsOperand]) (List.append_cancel_left same)
      obtain ⟨first, closed⟩ := takenHypothesis onTakenToo (endsBlock_closing _ _ _)
        (endsBlock_closing _ _ _) (List.append_cancel_left blocks)
      obtain ⟨second, later⟩ := closing_append (otherwiseHypothesis onOtherwiseToo) closed
      obtain ⟨tail, last⟩ := inductionHypothesis furtherToo ends endsToo later
      exact ⟨by simp [Node.sameAll, Node.same, Node.same_refl, first, second, tail], last⟩

end EncoderTables.Generator
