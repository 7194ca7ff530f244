import EncoderTables.Proofs.Code.Nesting

/-!
# Outlines of code

The outline of code shows which lines stand in which blocks. A block has its body between a
head and a line that closes it, and it may have an alternative behind a line that does both.
Each line stands inside of as many blocks as there are around it in the outline, so the rows of
an outline end at the nesting that they start at, as long as no line looks like the end or the
start of a block itself.
-/

namespace EncoderTables.Code

/-- The outline of code. -/
inductive Outline where
  | line (text : String)
  | block (head : String) (body : List Outline)
  | choice (head : String) (taken otherwise : List Outline)

/-- How lines and heads start: with a character that is no blank, closes no block and is not
the sign of a directive. -/
def OpensLine (text : String) : Prop :=
  ∃ c ∈ text.toList.head?, Text.isBlank c = false ∧ c ≠ '\x7d' ∧ c ≠ '#'

/-- How lines end: with a character that is no blank and neither opens nor closes a block. -/
def EndsLine (text : String) : Prop :=
  ∃ c ∈ text.toList.getLast?, Text.isBlank c = false ∧ c ≠ '\x7b' ∧ c ≠ '\x7d'

instance (text : String) : Decidable (OpensLine text) :=
  Option.decidableExistsMem text.toList.head?

instance (text : String) : Decidable (EndsLine text) :=
  Option.decidableExistsMem text.toList.getLast?

/-- A line starts with its first part. -/
theorem OpensLine.append {front : String} (opens : OpensLine front) (back : String) :
    OpensLine (front ++ back) := by
  obtain ⟨c, first, free⟩ := opens
  refine ⟨c, ?_, free⟩
  rw [String.toList_append, List.head?_append, Option.mem_def.mp first]
  rfl

/-- A line ends with its last part. -/
theorem EndsLine.append {back : String} (ends : EndsLine back) (front : String) :
    EndsLine (front ++ back) := by
  obtain ⟨c, last, free⟩ := ends
  refine ⟨c, ?_, free⟩
  rw [String.toList_append, List.getLast?_append, Option.mem_def.mp last]
  rfl

/-- A line that neither opens nor closes a block. -/
structure IsStatement (text : String) : Prop where
  whole : '\n' ∉ text.toList
  starts : OpensLine text
  ends : EndsLine text

/-- The head of a block. -/
structure IsHead (text : String) : Prop where
  whole : '\n' ∉ text.toList
  starts : OpensLine text

namespace Outline

mutual

/-- The code of an outline. -/
def text : Outline → String
  | .line own => own ++ "\n"
  | .block head body => head ++ " \x7b\n" ++ texts body ++ "\x7d\n"
  | .choice head taken otherwise =>
    head ++ " \x7b\n" ++ texts taken ++ "\x7d else \x7b\n" ++ texts otherwise ++ "\x7d\n"

/-- The code of several outlines. -/
def texts : List Outline → String
  | [] => ""
  | outline :: rest => text outline ++ texts rest

end

mutual

/-- The lines of an outline inside a number of blocks. -/
def rows (nesting : Nat) : Outline → List Row
  | .line own => [⟨nesting, own.toList⟩]
  | .block head body =>
    ⟨nesting, (head ++ " \x7b").toList⟩ :: (rowsAll (nesting + 1) body ++ [⟨nesting, ['\x7d']⟩])
  | .choice head taken otherwise =>
    ⟨nesting, (head ++ " \x7b").toList⟩ :: (rowsAll (nesting + 1) taken ++
      ⟨nesting, "\x7d else \x7b".toList⟩ ::
        (rowsAll (nesting + 1) otherwise ++ [⟨nesting, ['\x7d']⟩]))

/-- The lines of several outlines inside a number of blocks. -/
def rowsAll (nesting : Nat) : List Outline → List Row
  | [] => []
  | outline :: rest => rows nesting outline ++ rowsAll nesting rest

end

mutual

/-- An outline of which the blocks can be told from the lines. Lines may be empty. -/
def IsClear : Outline → Prop
  | .line own => own = "" ∨ IsStatement own
  | .block head body => IsHead head ∧ AreClear body
  | .choice head taken otherwise => IsHead head ∧ AreClear taken ∧ AreClear otherwise

/-- Outlines of which the blocks can be told from the lines. -/
def AreClear : List Outline → Prop
  | [] => True
  | outline :: rest => IsClear outline ∧ AreClear rest

end

/-- One outline behind another. -/
@[simp]
theorem texts_append (first second : List Outline) :
    texts (first ++ second) = texts first ++ texts second := by
  induction first with
  | nil => simp [texts]
  | cons outline first inductionHypothesis =>
    rw [List.cons_append, texts, texts, inductionHypothesis, String.append_assoc]

/-- The rows of one outline behind those of another. -/
@[simp]
theorem rowsAll_append (nesting : Nat) (first second : List Outline) :
    rowsAll nesting (first ++ second) = rowsAll nesting first ++ rowsAll nesting second := by
  induction first with
  | nil => simp [rowsAll]
  | cons outline first inductionHypothesis =>
    rw [List.cons_append, rowsAll, rowsAll, inductionHypothesis, List.append_assoc]

/-- Outlines are clear when each of them is. -/
@[simp]
theorem areClear_append (first second : List Outline) :
    AreClear (first ++ second) ↔ AreClear first ∧ AreClear second := by
  induction first with
  | nil => simp [AreClear]
  | cons outline first inductionHypothesis =>
    rw [List.cons_append, AreClear, AreClear, inductionHypothesis, and_assoc]

/-- The code of rows: each line with its end. -/
def codeOf (rows : List Row) : List Char := rows.flatMap fun row => row.line ++ ['\n']

/-- The code of rows behind other rows. -/
@[simp]
theorem codeOf_append (front back : List Row) : codeOf (front ++ back) = codeOf front ++ codeOf back :=
  List.flatMap_append

/-- The code of a row in front of others. -/
@[simp]
theorem codeOf_cons (row : Row) (rows : List Row) :
    codeOf (row :: rows) = row.line ++ '\n' :: codeOf rows := by
  simp [codeOf]

/-- The code of no rows. -/
@[simp]
theorem codeOf_nil : codeOf [] = [] := rfl

mutual

/-- The rows of an outline are its code. -/
theorem codeOf_rows (nesting : Nat) : (outline : Outline) →
    codeOf (rows nesting outline) = (text outline).toList
  | .line own => by simp [rows, text]
  | .block head body => by
    have inside := codeOf_rowsAll (nesting + 1) body
    simp [rows, text, inside]
  | .choice head taken otherwise => by
    have first := codeOf_rowsAll (nesting + 1) taken
    have second := codeOf_rowsAll (nesting + 1) otherwise
    simp [rows, text, first, second]

/-- The rows of outlines are their code. -/
theorem codeOf_rowsAll (nesting : Nat) : (outlines : List Outline) →
    codeOf (rowsAll nesting outlines) = (texts outlines).toList
  | [] => rfl
  | outline :: rest => by
    rw [rowsAll, texts, codeOf_append, codeOf_rows nesting outline, codeOf_rowsAll nesting rest,
      String.toList_append]

end

end Outline

/-- The outermost characters of a line tell what it opens and closes. -/
theorem Nests.of_edges {nesting first last : Nat} {line : List Char} {c d : Char}
    (start : line.head? = some c) (stop : line.getLast? = some d)
    (before : nesting + (c == '\x7d' || d == '\x7d').toNat = first)
    (behind : nesting + (d == '\x7b').toNat = last) : Nests first [⟨nesting, line⟩] last := by
  subst before behind
  refine ⟨?_, ?_⟩
  · simp [Row.before, Printer.closes, start, stop]
  · simp [Nests, Row.behind, Printer.opens, stop]

/-- A line with outermost characters that can be seen, of which the first is not the sign of a
directive. -/
theorem Row.IsLine.of_edges {row : Row} (whole : '\n' ∉ row.line) {c d : Char}
    (start : row.line.head? = some c) (stop : row.line.getLast? = some d)
    (visible : Text.isBlank c = false) (noSign : c ≠ '#') (visibleToo : Text.isBlank d = false) :
    row.IsLine where
  whole := whole
  trimmed := ⟨by simpa [start] using visible, by simpa [stop] using visibleToo⟩
  code := by simp [isDirective, start, noSign]

/-- A statement opens and closes nothing. -/
theorem IsStatement.nests {own : String} (statement : IsStatement own) (nesting : Nat) :
    Nests nesting [⟨nesting, own.toList⟩] nesting ∧ Row.IsLine ⟨nesting, own.toList⟩ := by
  obtain ⟨whole, ⟨c, start, visible, noCloser, noSign⟩, d, stop, visibleToo, noOpener, noEnd⟩ :=
    statement
  refine ⟨.of_edges start stop ?_ ?_, .of_edges whole start stop visible noSign visibleToo⟩
  · simp [beq_eq_false_iff_ne.mpr noCloser, beq_eq_false_iff_ne.mpr noEnd]
  · simp [beq_eq_false_iff_ne.mpr noOpener]

/-- The head of a block opens it. -/
theorem IsHead.nests {head : String} (isHead : IsHead head) (nesting : Nat) :
    Nests nesting [⟨nesting, (head ++ " \x7b").toList⟩] (nesting + 1) ∧
      Row.IsLine ⟨nesting, (head ++ " \x7b").toList⟩ := by
  obtain ⟨whole, c, first, visible, noCloser, noSign⟩ := isHead
  have start : (head ++ " \x7b").toList.head? = some c := by
    rw [String.toList_append, List.head?_append, Option.mem_def.mp first]
    rfl
  have stop : (head ++ " \x7b").toList.getLast? = some '\x7b' := by simp
  refine ⟨.of_edges start stop ?_ rfl,
    .of_edges (by simpa using whole) start stop visible noSign (by decide)⟩
  simp [beq_eq_false_iff_ne.mpr noCloser]

namespace Outline

/-- The rows of a block, given those inside, which are one deeper. -/
theorem nests_block {nesting : Nat} {head : String} (isHead : IsHead head) {inside : List Row}
    (nests : Nests (nesting + 1) inside (nesting + 1)) (isLine : ∀ row ∈ inside, row.IsLine) :
    Nests nesting (⟨nesting, (head ++ " \x7b").toList⟩ :: (inside ++ [⟨nesting, ['\x7d']⟩])) nesting ∧
      ∀ row ∈ (⟨nesting, (head ++ " \x7b").toList⟩ :: (inside ++ [⟨nesting, ['\x7d']⟩]) : List Row),
        row.IsLine := by
  obtain ⟨opens, own⟩ := isHead.nests nesting
  have closes : Nests (nesting + 1) [⟨nesting, ['\x7d']⟩] nesting := .of_edges rfl rfl rfl rfl
  have whole : '\n' ∉ ['\x7d'] := by decide
  have last : Row.IsLine ⟨nesting, ['\x7d']⟩ :=
    .of_edges whole rfl rfl (by decide) (by decide) (by decide)
  refine ⟨opens.append (nests.append closes), ?_⟩
  simp only [List.forall_mem_cons, List.forall_mem_append]
  exact ⟨own, isLine, last, List.forall_mem_nil _⟩

mutual

/-- A clear outline ends at the nesting that it starts at. -/
theorem rows_nest (nesting : Nat) : (outline : Outline) → outline.IsClear →
    Nests nesting (rows nesting outline) nesting ∧ ∀ row ∈ rows nesting outline, row.IsLine
  | .line own, clear => by
    rcases clear with rfl | statement
    · refine ⟨⟨rfl, rfl⟩, List.forall_mem_singleton.mpr ⟨?_, ⟨?_, ?_⟩, rfl⟩⟩
      · exact List.not_mem_nil
      · simp
      · simp
    · obtain ⟨nests, isLine⟩ := statement.nests nesting
      exact ⟨nests, List.forall_mem_singleton.mpr isLine⟩
  | .block head body, ⟨isHead, clear⟩ => by
    obtain ⟨nests, isLine⟩ := rowsAll_nest (nesting + 1) body clear
    exact nests_block isHead nests isLine
  | .choice head taken otherwise, ⟨isHead, clear, clearToo⟩ => by
    obtain ⟨nests, isLine⟩ := rowsAll_nest (nesting + 1) taken clear
    obtain ⟨nestsToo, isLineToo⟩ := rowsAll_nest (nesting + 1) otherwise clearToo
    have turn : Nests (nesting + 1) [⟨nesting, "\x7d else \x7b".toList⟩] (nesting + 1) :=
      .of_edges rfl rfl rfl rfl
    have whole : '\n' ∉ "\x7d else \x7b".toList := by decide
    have middle : Row.IsLine ⟨nesting, "\x7d else \x7b".toList⟩ :=
      .of_edges whole rfl rfl (by decide) (by decide) (by decide)
    -- The alternative continues the block that the head has opened.
    have nested := nests_block isHead (nests.append (turn.append nestsToo))
      (List.forall_mem_append.mpr ⟨isLine, List.forall_mem_cons.mpr ⟨middle, isLineToo⟩⟩)
    simpa [rows] using nested

/-- Clear outlines end at the nesting that they start at. -/
theorem rowsAll_nest (nesting : Nat) : (outlines : List Outline) → AreClear outlines →
    Nests nesting (rowsAll nesting outlines) nesting ∧
      ∀ row ∈ rowsAll nesting outlines, row.IsLine
  | [], _ => ⟨rfl, List.forall_mem_nil _⟩
  | outline :: rest, ⟨clear, others⟩ => by
    obtain ⟨nests, isLine⟩ := rows_nest nesting outline clear
    obtain ⟨nestsToo, isLineToo⟩ := rowsAll_nest nesting rest others
    exact ⟨nests.append nestsToo, List.forall_mem_append.mpr ⟨isLine, isLineToo⟩⟩

end

end Outline

end EncoderTables.Code
