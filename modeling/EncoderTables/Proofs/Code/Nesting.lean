import EncoderTables.Proofs.Code.Layout
import EncoderTables.Proofs.Text.Lines

/-!
# Nesting of laid out code

Code whose lines open and close blocks one inside the other is laid out at the depth of its
blocks. A printer knows the nesting only from the outermost characters of its lines, but where
each line starts at the nesting that the lines before it have left, its depth is the nesting
above the depth that it started with. It never falls below that depth, so no line closes a
block that is not open, and behind code that closes all its blocks it is what it was before.
The pieces that the code arrives in do not matter, nor do the dimensions of the page.
-/

namespace EncoderTables.Code

/-- A line of code with the number of blocks around it. -/
structure Row where
  nesting : Nat
  line : List Char
  deriving DecidableEq, Repr

namespace Row

/-- The nesting in front of a row, which is one more if the row closes a block. -/
def before (row : Row) : Nat := row.nesting + (Printer.closes row.line).toNat

/-- The nesting behind a row, which is one more if the row opens a block. -/
def behind (row : Row) : Nat := row.nesting + (Printer.opens row.line).toNat

/-- A row is one line, it has no blanks around it and is not a directive. -/
structure IsLine (row : Row) : Prop where
  whole : '\n' ∉ row.line
  trimmed : Text.IsTrimmed row.line
  code : isDirective row.line = false

end Row

/-- Rows that lead from one nesting to another, each from where the row before it ends. -/
def Nests : (first : Nat) → List Row → (last : Nat) → Prop
  | first, [], last => first = last
  | first, row :: rest, last => row.before = first ∧ Nests row.behind rest last

/-- Rows behind other rows. -/
theorem Nests.append {first middle last : Nat} {front back : List Row}
    (one : Nests first front middle) (two : Nests middle back last) :
    Nests first (front ++ back) last := by
  induction front generalizing first with
  | nil =>
    obtain rfl : first = middle := one
    exact two
  | cons row rest inductionHypothesis => exact ⟨one.1, inductionHypothesis one.2⟩

/-- The first piece of a line that is broken starts as the line does. -/
theorem exists_wrapFrom (page : Page) (split : Option Char) (directive : Bool)
    (next : List Char) (inLiteral : Bool) (lead : List Char) (c : Char) (body : List Char) :
    ∃ piece pieces, wrapFrom page split directive next inLiteral lead (c :: body) = piece :: pieces ∧
      lead ++ [c] <+: piece := by
  have start : lead ++ [c] <+: lead ++ c :: body := ⟨body, by simp⟩
  unfold wrapFrom
  dsimp only
  split
  · exact ⟨_, [], rfl, start⟩
  · split
    · exact ⟨_, [], rfl, start⟩
    · next pos found =>
      -- The break lies behind the first character of the body.
      obtain ⟨behind, -⟩ := breakAt?_bounds found
      have taken : lead ++ [c] <+: (lead ++ c :: body).take pos :=
        List.prefix_take_iff.mpr ⟨start, by rwa [List.length_append]⟩
      exact ⟨_, _, rfl, (taken.trans (List.prefix_append _ _)).trans (List.prefix_append _ _)⟩

/-- What is written for a line starts with the margin and the first character of the line. -/
theorem exists_wrap (page : Page) (split : Option Char) (leader margin : List Char) (c : Char)
    (line : List Char) : ∃ piece pieces,
      wrap page split leader margin (c :: line) = piece :: pieces ∧ margin ++ [c] <+: piece := by
  unfold wrap
  dsimp only
  split
  · exact ⟨_, [], rfl, line, by simp⟩
  · exact exists_wrapFrom ..

namespace Printer

/-- Write lines one after the other, each with a preferred character to break it at. -/
def lay (page : Page) (printer : Printer) (lines : List (Option Char × List Char)) : Printer :=
  lines.foldl (fun printer line => putLine page line.1 [] [] printer line.2) printer

/-- Lines are written behind those before. -/
theorem lay_append (page : Page) (printer : Printer) (first second : List (Option Char × List Char)) :
    lay page printer (first ++ second) = lay page (lay page printer first) second :=
  List.foldl_append

/-- What waits in the buffer does not matter to whole lines. -/
theorem lay_buffer (page : Page) (printer : Printer) (buffer : List Char)
    (lines : List (Option Char × List Char)) :
    lay page { printer with buffer := buffer } lines =
      { lay page printer lines with buffer := buffer } := by
  induction lines generalizing printer with
  | nil => rfl
  | cons line lines inductionHypothesis =>
    have step : putLine page line.1 [] [] { printer with buffer := buffer } line.2 =
        { putLine page line.1 [] [] printer line.2 with buffer := buffer } := by
      unfold putLine
      dsimp only
      split <;> rfl
    rw [lay, List.foldl_cons, step]
    exact inductionHypothesis _

/-- Lines without a leader are written one after the other. -/
theorem putLines_lay (page : Page) (split : Option Char) (printer : Printer)
    (lines : List (List Char)) :
    putLines page split [] printer lines = lay page printer (lines.map fun line => (split, line)) := by
  cases lines with
  | nil => rfl
  | cons first rest => rw [putLines, lay, List.map_cons, List.foldl_cons, List.foldl_map]

/-- Writing a chunk without a leader writes its whole lines. -/
theorem write_lay (page : Page) (printer : Printer) {chunk : Chunk} (bare : chunk.leader = "") :
    ∃ wide, Text.Widened chunk.text.toList wide ∧ ∃ lines,
      lines.map Prod.snd = (Text.cutAt '\n' (printer.buffer ++ wide)).dropLast ∧
      (∀ line ∈ lines, line.1 = chunk.split) ∧
      write page printer chunk = { lay page printer lines with
        buffer := (Text.cutAt '\n' (printer.buffer ++ wide)).getLastD [] } := by
  refine ⟨_, Text.widened_expandFrom page.indent 0 chunk.text.toList,
    (Text.cutAt '\n' (printer.buffer ++
      Text.expandFrom page.indent 0 chunk.text.toList)).dropLast.map fun line => (chunk.split, line),
    by simp [Function.comp_def], fun line member => ?_, ?_⟩
  · obtain ⟨_, -, rfl⟩ := List.mem_map.mp member
    rfl
  · rw [← putLines_lay, write, bare]
    rfl

/-- Writing chunks without leaders writes the lines of the code that they make up. -/
theorem writeAll_lay (page : Page) {chunks : List Chunk} (bare : ∀ chunk ∈ chunks, chunk.leader = "")
    (printer : Printer) (incomplete : '\n' ∉ printer.buffer) :
    ∃ wide, Text.Widened (Chunk.join chunks).toList wide ∧ ∃ lines,
      lines.map Prod.snd = (Text.cutAt '\n' (printer.buffer ++ wide)).dropLast ∧
      (∀ line ∈ lines, ∃ chunk ∈ chunks, line.1 = chunk.split) ∧
      writeAll page printer chunks = { lay page printer lines with
        buffer := (Text.cutAt '\n' (printer.buffer ++ wide)).getLastD [] } := by
  induction chunks generalizing printer with
  | nil =>
    refine ⟨[], .nil, [], ?_, List.forall_mem_nil _, ?_⟩
    · rw [List.append_nil, Text.cutAt_clean incomplete]
      rfl
    · rw [List.append_nil, Text.cutAt_clean incomplete]
      rfl
  | cons chunk chunks inductionHypothesis =>
    obtain ⟨own, others⟩ := List.forall_mem_cons.mp bare
    obtain ⟨wide, widened, lines, cut, splits, written⟩ := write_lay page printer own
    have waits : (write page printer chunk).buffer =
        (Text.cutAt '\n' (printer.buffer ++ wide)).getLastD [] := by rw [written]
    have incompleteToo : '\n' ∉ (write page printer chunk).buffer :=
      waits ▸ Text.not_mem_last '\n' _
    obtain ⟨broad, widenedToo, more, cutToo, splitsToo, writtenToo⟩ :=
      inductionHypothesis others (write page printer chunk) incompleteToo
    -- The first chunk leaves the last of its parts to the others.
    have together := Text.cutAt_append_last '\n' (printer.buffer ++ wide) broad
    rw [List.append_assoc, ← waits] at together
    have filled := Text.cutAt_ne_nil '\n' ((write page printer chunk).buffer ++ broad)
    refine ⟨wide ++ broad, ?_, lines ++ more, ?_, ?_, ?_⟩
    · rw [Chunk.join, List.map_cons, String.join_cons, String.toList_append]
      exact widened.append widenedToo
    · rw [List.map_append, cut, cutToo, together, List.dropLast_append_of_ne_nil filled]
    · refine List.forall_mem_append.mpr
        ⟨fun line member => ⟨chunk, List.mem_cons_self, splits line member⟩, fun line member => ?_⟩
      obtain ⟨other, listed, same⟩ := splitsToo line member
      exact ⟨other, List.mem_cons_of_mem _ listed, same⟩
    · have last : (Text.cutAt '\n' (printer.buffer ++ (wide ++ broad))).getLastD [] =
          (Text.cutAt '\n' ((write page printer chunk).buffer ++ broad)).getLastD [] := by
        rw [together, List.getLastD_eq_getLast?, List.getLastD_eq_getLast?,
          List.getLast?_append_of_ne_nil _ filled]
      have next : lay page (write page printer chunk) more =
          { lay page printer (lines ++ more) with
            buffer := (write page printer chunk).buffer } := by
        rw [written, lay_buffer, lay_append]
      rw [writeAll, List.foldl_cons]
      exact writtenToo.trans (by rw [next, last])

/-- A printer writes a row above a depth. It is never below that depth, and not at it in front
of a row that closes a block; and it writes the row behind the margin of its nesting above that
depth. The tabs of the row may have been expanded in any way, and the row is broken wherever it
must be. -/
structure Puts (page : Page) (depth : Nat) (row : Row) (before after : Printer) : Prop where
  above : depth ≤ before.depth
  matched : closes row.line = true → depth < before.depth
  written : ∃ split line, Text.Widened row.line line ∧
    after = putLine page split [] [] before line
  indented : ∀ c ∈ row.line.head?, ∃ text, after.output = before.output ++ String.ofList
    (List.replicate ((depth + row.nesting) * page.indent) ' ' ++ c :: text)

/-- A printer writes rows above a depth, one after the other. -/
inductive PutsAll (page : Page) (depth : Nat) : Printer → List Row → Printer → Prop where
  | nil {printer : Printer} (above : depth ≤ printer.depth) : PutsAll page depth printer [] printer
  | cons {row : Row} {rest : List Row} {before middle after : Printer}
    (first : Puts page depth row before middle) (others : PutsAll page depth middle rest after) :
    PutsAll page depth before (row :: rest) after

/-- A line that stands at its nesting above a depth is written there, and the printer is left
with the nesting behind it. -/
theorem puts_of_line (page : Page) {depth : Nat} {row : Row} (isLine : row.IsLine)
    {printer : Printer} (stands : printer.depth = depth + row.before) (split : Option Char)
    {line : List Char} (widened : Text.Widened row.line line) :
    Puts page depth row printer (putLine page split [] [] printer line) ∧
      (putLine page split [] [] printer line).depth = depth + row.behind := by
  have trimmed := (isLine.trimmed.widened widened).trim_eq
  have start := isLine.trimmed.head?_widened widened
  have stop := isLine.trimmed.getLast?_widened widened
  have closing : closes line = closes row.line := by rw [closes, closes, start, stop]
  have opening : opens line = opens row.line := by rw [opens, opens, stop]
  have code : isDirective line = false := by
    rw [isDirective, start]
    exact isLine.code
  -- The printer is deeper than the row just if the row closes a block.
  have own : lineDepth printer.depth line = depth + row.nesting := by
    rw [lineDepth, closing, stands, Row.before]
    cases closes row.line <;> simp
  have above : depth ≤ printer.depth := by omega
  have matched (closer : closes row.line = true) : depth < printer.depth := by
    rw [stands, Row.before, closer]
    simp
  cases line with
  | nil =>
    have empty : row.line = [] := by simpa using start.symm
    refine ⟨⟨above, matched, ⟨split, [], widened, rfl⟩, by simp [empty]⟩, ?_⟩
    simp [putLine, trimmed, own, Row.behind, empty, opens]
  | cons c rest =>
    refine ⟨⟨above, matched, ⟨split, c :: rest, widened, rfl⟩, fun first isFirst => ?_⟩, ?_⟩
    · obtain rfl : c = first := by
        rw [← start] at isFirst
        simpa using isFirst
      obtain ⟨piece, pieces, pieced, ⟨more, rfl⟩⟩ := exists_wrap page split []
        (List.replicate ((depth + row.nesting) * page.indent) ' ') c rest
      refine ⟨more ++ '\n' :: (ended pieces).toList, ?_⟩
      simp [putLine, trimmed, own, margin, code, pieced, ended, String.ext_iff]
    · simp only [putLine, trimmed, own, Row.behind, ← opening, List.nil_append]
      cases opens (c :: rest)
      · simp
      · simp [Nat.add_assoc]

/-- Rows that nest are written above the depth that they start at, whatever the lines are
broken at. -/
theorem lay_nests (page : Page) {depth first last : Nat} {rows : List Row}
    (nests : Nests first rows last) (isLine : ∀ row ∈ rows, row.IsLine) {printer : Printer}
    (stands : printer.depth = depth + first) {lines : List (Option Char × List Char)}
    (widened : List.Forall₂ Text.Widened (rows.map Row.line) (lines.map Prod.snd)) :
    PutsAll page depth printer rows (lay page printer lines) ∧
      (lay page printer lines).depth = depth + last := by
  induction rows generalizing first printer lines with
  | nil =>
    obtain rfl : first = last := nests
    obtain rfl : lines = [] := by simpa using widened
    exact ⟨.nil (by simp [stands]), stands⟩
  | cons row rest inductionHypothesis =>
    obtain ⟨own, others⟩ := List.forall_mem_cons.mp isLine
    obtain ⟨rfl, behind⟩ := nests
    cases lines with
    | nil => cases widened
    | cons line lines =>
      obtain ⟨one, more⟩ := List.forall₂_cons.mp widened
      obtain ⟨puts, after⟩ := puts_of_line page own stands line.1 one
      obtain ⟨putsAll, final⟩ := inductionHypothesis behind others after more
      exact ⟨.cons puts putsAll, final⟩

/-- Code of rows that nest is written above the depth that it starts at, in whatever chunks it
arrives. -/
theorem writeAll_nests (page : Page) {depth first last : Nat} {rows : List Row}
    (nests : Nests first rows last) (isLine : ∀ row ∈ rows, row.IsLine) {printer : Printer}
    (stands : printer.depth = depth + first) (waiting : printer.buffer = []) {chunks : List Chunk}
    (bare : ∀ chunk ∈ chunks, chunk.leader = "")
    (code : (Chunk.join chunks).toList = rows.flatMap fun row => row.line ++ ['\n']) :
    PutsAll page depth printer rows (writeAll page printer chunks) ∧
      (writeAll page printer chunks).depth = depth + last ∧
      (writeAll page printer chunks).buffer = [] := by
  obtain ⟨wide, widened, lines, cut, -, written⟩ :=
    writeAll_lay page bare printer (by simp [waiting])
  have whole : ∀ line ∈ rows.map Row.line, '\n' ∉ line := by
    simpa using fun row member => (isLine row member).whole
  have lined : (Chunk.join chunks).toList = (rows.map Row.line).flatMap (· ++ ['\n']) := by
    rw [code, List.flatMap_map]
  obtain ⟨wides, parts, each⟩ := Text.cutAt_lines whole (lined ▸ widened)
  rw [waiting, List.nil_append, parts] at cut written
  rw [List.dropLast_concat] at cut
  have empty : { printer with buffer := [] } = printer := by rw [← waiting]
  have final : writeAll page printer chunks = lay page printer lines := by
    rw [written, List.getLastD_concat, ← lay_buffer, empty]
  have rest : (writeAll page printer chunks).buffer = [] := by rw [written, List.getLastD_concat]
  obtain ⟨putsAll, depth⟩ := lay_nests page nests isLine stands (cut ▸ each)
  exact ⟨final ▸ putsAll, final ▸ depth, rest⟩

end Printer

end EncoderTables.Code
