import EncoderTables.Proofs.Code.Nesting
import Mathlib

/-!
# Code in pieces

A printer does not depend on how its code is cut into chunks: an incomplete line waits in the
buffer for the rest of it, wherever the cut is. Only tabs can tell a cut, as their stops are
counted from the start of each chunk. They cannot either where a line starts, or where there are
none behind the cut.
-/

namespace EncoderTables

namespace Text

/-- The column in which a text ends that starts in the given one. -/
def columnBehind (distance column : Nat) : List Char → Nat
  | [] => column
  | c :: rest =>
    if c = '\t' then
      columnBehind distance (if distance = 0 then column else column + (distance - column % distance))
        rest
    else if c = '\n' || c = '\r' then columnBehind distance 0 rest
    else columnBehind distance (column + 1) rest

/-- The tabs of a text behind another are expanded from the column in which the other ends. -/
theorem expandFrom_append (distance column : Nat) (first second : List Char) :
    expandFrom distance column (first ++ second) = expandFrom distance column first ++
      expandFrom distance (columnBehind distance column first) second := by
  induction first generalizing column with
  | nil => rfl
  | cons c first inductionHypothesis =>
    simp only [List.cons_append, expandFrom, columnBehind]
    split
    · split
      · exact inductionHypothesis _
      · rw [inductionHypothesis, List.append_assoc]
    · split <;> rw [inductionHypothesis, List.cons_append]

/-- A text behind another ends in the column to which it leads from the end of the other. -/
theorem columnBehind_append (distance column : Nat) (first second : List Char) :
    columnBehind distance column (first ++ second) =
      columnBehind distance (columnBehind distance column first) second := by
  induction first generalizing column with
  | nil => rfl
  | cons c first inductionHypothesis =>
    simp only [List.cons_append, columnBehind]
    split
    · exact inductionHypothesis _
    · split <;> exact inductionHypothesis _

/-- A text that leaves its line: there is nothing of it, or its last character ends a line. -/
def IsEnded (text : List Char) : Prop := ∀ c ∈ text.getLast?, c = '\n' ∨ c = '\r'

/-- Behind the end of a line the columns are counted anew. -/
theorem columnBehind_of_isEnded {text : List Char} (ends : IsEnded text) (distance : Nat) :
    columnBehind distance 0 text = 0 := by
  rcases List.eq_nil_or_concat' text with rfl | ⟨former, last, rfl⟩
  · rfl
  · rw [columnBehind_append]
    rcases ends last (by simp) with rfl | rfl <;> rfl

/-- Tabs are expanded in each of two texts for itself as in both together, if the second has none
or starts a line. -/
theorem expandTabs_append (distance : Nat) {first second : List Char}
    (apart : '\t' ∉ second ∨ IsEnded first) :
    expandTabs distance (first ++ second) =
      expandTabs distance first ++ expandTabs distance second := by
  rw [expandTabs, expandFrom_append]
  rcases apart with noTab | ends
  · have kept (column : Nat) : expandFrom distance column second = second :=
      (widened_expandFrom distance column second).eq_of_no_tab noTab
    rw [expandTabs, expandTabs, kept, kept]
  · rw [columnBehind_of_isEnded ends, expandTabs, expandTabs]

end Text

namespace Code.Printer

/-- Lay out the whole lines of a text and let the rest of it wait. -/
def layText (page : Page) (split : Option Char) (printer : Printer) (text : List Char) : Printer :=
  { lay page printer ((Text.cutAt '\n' text).dropLast.map fun line => (split, line)) with
    buffer := (Text.cutAt '\n' text).getLastD [] }

/-- A text behind what waits is laid out like the whole text. -/
theorem layText_append (page : Page) (split : Option Char) (printer : Printer)
    (front back : List Char) :
    layText page split (layText page split printer front)
        ((layText page split printer front).buffer ++ back) =
      layText page split printer (front ++ back) := by
  -- The last part of the first text is continued by the first part of the second one.
  have parts := Text.cutAt_append_last '\n' front back
  have filled := Text.cutAt_ne_nil '\n' ((Text.cutAt '\n' front).getLastD [] ++ back)
  have lines : (Text.cutAt '\n' (front ++ back)).dropLast = (Text.cutAt '\n' front).dropLast ++
      (Text.cutAt '\n' ((Text.cutAt '\n' front).getLastD [] ++ back)).dropLast := by
    rw [parts, List.dropLast_append_of_ne_nil filled]
  have rest : (Text.cutAt '\n' (front ++ back)).getLastD [] =
      (Text.cutAt '\n' ((Text.cutAt '\n' front).getLastD [] ++ back)).getLastD [] := by
    rw [parts, List.getLastD_eq_getLast?, List.getLast?_append_of_ne_nil _ filled,
      ← List.getLastD_eq_getLast?]
  simp only [layText, lines, rest, List.map_append, lay_append, lay_buffer]

/-- A chunk without a leader is laid out behind what waits. -/
theorem write_eq_layText (page : Page) (printer : Printer) (text : String) (split : Option Char) :
    write page printer ⟨text, split, ""⟩ = layText page split printer
      (printer.buffer ++ Text.expandTabs page.indent text.toList) := by
  rw [layText, ← putLines_lay]
  rfl

/-- A chunk behind another is written like both together, if their tabs are expanded alike. -/
theorem write_write (page : Page) (printer : Printer) (split : Option Char) {first second : String}
    (apart : '\t' ∉ second.toList ∨ Text.IsEnded first.toList) :
    write page (write page printer ⟨first, split, ""⟩) ⟨second, split, ""⟩ =
      write page printer ⟨first ++ second, split, ""⟩ := by
  rw [write_eq_layText, write_eq_layText, write_eq_layText, layText_append, List.append_assoc,
    String.toList_append, Text.expandTabs_append page.indent apart]

/-- An empty chunk changes nothing while an incomplete line waits. -/
theorem write_empty (page : Page) {printer : Printer} (incomplete : '\n' ∉ printer.buffer)
    (split : Option Char) : write page printer ⟨"", split, ""⟩ = printer := by
  have expanded : Text.expandTabs page.indent "".toList = [] := rfl
  rw [write_eq_layText, expanded, List.append_nil, layText, Text.cutAt_clean incomplete]
  rfl

/-- Chunks without tabs are written like all of them together, if there are any. -/
theorem writeAll_pieces (page : Page) (printer : Printer) (split : Option Char) (piece : String)
    {pieces : List String} (noTab : ∀ other ∈ pieces, '\t' ∉ other.toList) :
    writeAll page printer ((piece :: pieces).map fun text => ⟨text, split, ""⟩) =
      write page printer ⟨String.join (piece :: pieces), split, ""⟩ := by
  induction pieces generalizing printer piece with
  | nil =>
    rw [String.join_cons, String.join_nil, String.append_empty]
    rfl
  | cons second pieces inductionHypothesis =>
    have joined : '\t' ∉ (String.join (second :: pieces)).toList := by simpa using noTab
    calc
      writeAll page printer ((piece :: second :: pieces).map fun text => ⟨text, split, ""⟩)
      _ = writeAll page (write page printer ⟨piece, split, ""⟩)
          ((second :: pieces).map fun text => ⟨text, split, ""⟩) := rfl
      _ = write page (write page printer ⟨piece, split, ""⟩)
          ⟨String.join (second :: pieces), split, ""⟩ :=
        inductionHypothesis _ second (List.forall_mem_cons.mp noTab).2
      _ = write page printer ⟨String.join (piece :: second :: pieces), split, ""⟩ := by
        rw [write_write page printer split (Or.inl joined), ← String.join_cons]

/-- What a printer has written, its depth and its buffer do not depend on where its code is cut.
Two chunks without leaders leave it as both together do if the second has no tabs, or the first
is empty or ends a line; and so do any number of chunks without tabs. There may even be none of
them as long as no whole line waits, as none does behind any chunk. -/
theorem writeAll_joined (page : Page) (printer : Printer) (split : Option Char) :
    (∀ first second : String,
      '\t' ∉ second.toList ∨ first = "" ∨ first.toList.getLast? = some '\n' ∨
        first.toList.getLast? = some '\r' →
      write page (write page printer ⟨first, split, ""⟩) ⟨second, split, ""⟩ =
        write page printer ⟨first ++ second, split, ""⟩) ∧
    ∀ (text : String) (pieces : List String), '\t' ∉ text.toList → String.join pieces = text →
      pieces ≠ [] ∨ '\n' ∉ printer.buffer →
        writeAll page printer (pieces.map fun piece => ⟨piece, split, ""⟩) =
          write page printer ⟨text, split, ""⟩ := by
  constructor
  · rintro first second (noTab | rfl | line | line)
    · exact write_write page printer split (Or.inl noTab)
    all_goals exact write_write page printer split (Or.inr (by simp [Text.IsEnded, *]))
  · rintro _ pieces noTab rfl waits
    cases pieces with
    | nil => exact (write_empty page (waits.resolve_left (by simp)) split).symm
    | cons piece pieces =>
      have each : ∀ other ∈ piece :: pieces, '\t' ∉ other.toList := by simpa using noTab
      exact writeAll_pieces page printer split piece (List.forall_mem_cons.mp each).2

/-- A block that is cut inside a line that is wrapped, behind a tab of it, and a comment in three
pieces. -/
theorem writeAll_joined_block :
    '\t' ∉ " = f(aaaa, bbbbb);\n\x7d".toList ∧
      write ⟨2, 20⟩ (write ⟨2, 20⟩ .start ⟨"if (a) \x7b\n\tx", some ',', ""⟩)
          ⟨" = f(aaaa, bbbbb);\n\x7d", some ',', ""⟩ =
        ⟨"if (a) \x7b\n  x = f(aaaa,\n    bbbbb);\n", 1, ['\x7d']⟩ ∧
      '\t' ∉ "// a b\n".toList ∧
      writeAll ⟨2, 20⟩ .start (["/", "/ a ", "b\n"].map fun piece => ⟨piece, some ' ', ""⟩) =
        ⟨"// a b\n", 0, []⟩ := by
  have noTab : '\t' ∉ " = f(aaaa, bbbbb);\n\x7d".toList := by decide
  have noTabToo : '\t' ∉ "// a b\n".toList := by decide
  refine ⟨noTab, ?_, noTabToo, ?_⟩
  · rw [(writeAll_joined ⟨2, 20⟩ .start (some ',')).1 _ _ (Or.inl noTab)]
    cbv
  · rw [(writeAll_joined ⟨2, 20⟩ .start (some ' ')).2 _ _ noTabToo (by decide) (Or.inl (by simp))]
    cbv

/-- A tab behind a cut inside a line tells the cut. -/
example : write ⟨2, 20⟩ (write ⟨2, 20⟩ .start (.plain "x")) (.plain "\t") ≠
    write ⟨2, 20⟩ .start (.plain "x\t") := by decide

end Code.Printer

end EncoderTables
