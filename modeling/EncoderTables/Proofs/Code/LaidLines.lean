import EncoderTables.Proofs.Code.Literals
import EncoderTables.Proofs.Code.Nesting

/-!
# Lines of laid out code

A printer only adds to what it has written. So a line of the code that it is given is found in
what it leaves, as the pieces that it is wrapped into at the depth that the printer has there, as
long as the line starts and ends within the same chunks and these are without leaders.
-/

namespace EncoderTables

namespace Text

/-- Nothing stands behind the last line end. -/
theorem getLastD_cutAt_ended (separator : Char) (text : List Char) :
    (cutAt separator (text ++ [separator])).getLastD [] = [] := by
  have clean := not_mem_last separator text
  have ends : cutAt separator [] = [[]] := rfl
  rw [cutAt_append_last, cutAt_append _ _ _ clean, ends, List.getLastD_eq_getLast?]
  simp

/-- A line between others is one of the parts of a text. -/
theorem exists_cutAt_line {head line tail : List Char} (starts : ∀ c ∈ head.getLast?, c = '\n')
    (whole : '\n' ∉ line) : ∃ before after,
      (cutAt '\n' (head ++ (line ++ '\n' :: tail))).dropLast = before ++ line :: after := by
  have none : (cutAt '\n' head).getLastD [] = [] := by
    rcases List.eq_nil_or_concat' head with rfl | ⟨former, last, rfl⟩
    · rfl
    · obtain rfl := starts last (by simp)
      exact getLastD_cutAt_ended _ _
  have filled := cutAt_ne_nil '\n' tail
  rw [cutAt_append_last, none, List.nil_append, cutAt_append _ _ _ whole,
    List.dropLast_append_of_ne_nil (List.cons_ne_nil _ _), List.dropLast_cons_of_ne_nil filled]
  exact ⟨_, _, rfl⟩

end Text

namespace Code

namespace Printer

/-- A printer with more text behind what another has written. -/
def Extends (before after : Printer) : Prop := ∃ more, after.output = before.output ++ more

/-- Nothing has been written. -/
theorem Extends.refl (printer : Printer) : printer.Extends printer :=
  ⟨"", String.append_empty.symm⟩

/-- Text behind text. -/
theorem Extends.trans {before middle after : Printer} (first : before.Extends middle)
    (second : middle.Extends after) : before.Extends after := by
  obtain ⟨more, one⟩ := first
  obtain ⟨others, two⟩ := second
  exact ⟨more ++ others, by rw [two, one, String.append_assoc]⟩

/-- A line is written behind what has been written. -/
theorem putLine_extends (page : Page) (split : Option Char) (leader lead : List Char)
    (printer : Printer) (raw : List Char) :
    printer.Extends (putLine page split leader lead printer raw) := by
  unfold putLine
  dsimp only
  split <;> exact ⟨_, rfl⟩

/-- Lines are written behind what has been written. -/
theorem putLines_extends (page : Page) (split : Option Char) (leader : List Char)
    (printer : Printer) (lines : List (List Char)) :
    printer.Extends (putLines page split leader printer lines) := by
  have later (rest : List (List Char)) (printer : Printer) :
      printer.Extends (rest.foldl (putLine page split leader leader) printer) := by
    induction rest generalizing printer with
    | nil => exact .refl printer
    | cons line rest inductionHypothesis =>
      exact (putLine_extends page split leader leader printer line).trans (inductionHypothesis _)
  cases lines with
  | nil => exact .refl printer
  | cons line rest => exact (putLine_extends page split leader [] printer line).trans (later rest _)

/-- Chunks are written behind what has been written. -/
theorem writeAll_extends (page : Page) (printer : Printer) (chunks : List Chunk) :
    printer.Extends (writeAll page printer chunks) := by
  induction chunks generalizing printer with
  | nil => exact .refl printer
  | cons chunk rest inductionHypothesis =>
    have own : printer.Extends (write page printer chunk) := putLines_extends page _ _ _ _
    exact own.trans (inductionHypothesis _)

/-- Lines without leaders are written behind what has been written. -/
theorem lay_extends (page : Page) (printer : Printer) (lines : List (Option Char × List Char)) :
    printer.Extends (lay page printer lines) := by
  induction lines generalizing printer with
  | nil => exact .refl printer
  | cons line rest inductionHypothesis =>
    exact (putLine_extends page line.1 [] [] printer line.2).trans (inductionHypothesis _)

/-- A line that is not a directive is written behind the blanks of a depth. -/
theorem exists_putLine (page : Page) (split : Option Char) (printer : Printer) {line : List Char}
    (filled : line ≠ []) (trimmed : Text.IsTrimmed line) (code : isDirective line = false) :
    ∃ depth, (putLine page split [] [] printer line).output = printer.output ++
      ended (wrap page split [] (List.replicate (depth * page.indent) ' ') line) := by
  refine ⟨lineDepth printer.depth line, ?_⟩
  simp [putLine, trimmed.trim_eq, filled, margin, code]

/-- Behind a chunk that ends with its line nothing waits. -/
theorem buffer_write (page : Page) (printer : Printer) {chunk : Chunk}
    (ends : chunk.text.toList.getLast? = some '\n') : (write page printer chunk).buffer = [] := by
  obtain ⟨front, text⟩ := List.getLast?_eq_some_iff.mp ends
  have widened := Text.widened_expandFrom page.indent 0 chunk.text.toList
  rw [text] at widened
  obtain ⟨wide, last, same, -, own⟩ := widened.exists_append
  obtain rfl := own.eq_of_no_tab (by decide)
  have expanded : Text.expandTabs page.indent chunk.text.toList = wide ++ ['\n'] := by
    rw [Text.expandTabs, text, same]
  rw [write, expanded, ← List.append_assoc]
  exact Text.getLastD_cutAt_ended _ _

/-- Behind chunks of which the last ends with its line nothing waits. -/
theorem buffer_writeAll (page : Page) {chunks : List Chunk}
    (ends : ∀ chunk ∈ chunks.getLast?, chunk.text.toList.getLast? = some '\n') :
    (Printer.start.writeAll page chunks).buffer = [] := by
  rcases List.eq_nil_or_concat' chunks with rfl | ⟨former, last, rfl⟩
  · rfl
  · rw [writeAll, List.foldl_append]
    exact buffer_write page _ (ends last (by simp))

end Printer

/-- Lines with their ends are written as they are. -/
theorem toList_ended (lines : List (List Char)) :
    (Printer.ended lines).toList = written lines := by
  induction lines with
  | nil => rfl
  | cons line rest inductionHypothesis =>
    rw [written_cons, ← inductionHypothesis]
    simp [Printer.ended, String.join_cons]

/-- A line of plain chunks is put at some moment, and what is put then stays. -/
theorem exists_put (page : Page) {printer : Printer} (waiting : printer.buffer = [])
    {own : List Chunk} (plain : ∀ chunk ∈ own, chunk.split = some ' ' ∧ chunk.leader = "")
    {head line tail : List Char} (text : (Chunk.join own).toList = head ++ (line ++ '\n' :: tail))
    (starts : ∀ c ∈ head.getLast?, c = '\n') (whole : '\n' ∉ line) :
    ∃ wide before, Text.Widened line wide ∧
      (Printer.putLine page (some ' ') [] [] before wide).Extends (printer.writeAll page own) := by
  obtain ⟨broad, widened, lines, cut, splits, laid⟩ := Printer.writeAll_lay page
    (fun chunk member => (plain chunk member).2) printer (by simp [waiting])
  rw [text] at widened
  obtain ⟨front, others, rfl, first, more⟩ := widened.exists_append
  obtain ⟨wide, back, rfl, second, rest⟩ := more.exists_append
  obtain ⟨behind, rfl, -⟩ := rest.exists_cons (by decide)
  have startsToo : ∀ c ∈ front.getLast?, c = '\n' := by
    rcases List.eq_nil_or_concat' head with rfl | ⟨former, final, rfl⟩
    · cases first
      simp
    · obtain rfl := starts final (by simp)
      obtain ⟨_, stop, rfl, -, one⟩ := first.exists_append
      obtain rfl := one.eq_of_no_tab (by decide)
      simp
  obtain ⟨before, after, parts⟩ :=
    Text.exists_cutAt_line startsToo (second.not_mem (by decide) whole)
  rw [waiting, List.nil_append, parts] at cut
  obtain ⟨earlier, later, rfl, -, behind⟩ := List.map_eq_append_iff.mp cut
  obtain ⟨entry, later, rfl, same, -⟩ := List.map_eq_cons_iff.mp behind
  obtain ⟨chunk, member, split⟩ := splits entry (by simp)
  obtain ⟨more, added⟩ := Printer.lay_extends page
    (Printer.putLine page entry.1 [] [] (printer.lay page earlier) entry.2) later
  refine ⟨wide, printer.lay page earlier, second, more, ?_⟩
  rw [laid, ← same, ← (plain chunk member).1, ← split, ← added, Printer.lay_append]
  rfl

/-- A line of code that is laid out is found in the text as the pieces that it is wrapped into at
some depth. The chunks that it starts and ends in are plain, and those before end with a line. -/
theorem exists_layOut (page : Page) {front inside back : List Chunk}
    (ends : ∀ chunk ∈ front.getLast?, chunk.text.toList.getLast? = some '\n')
    (plain : ∀ chunk ∈ inside, chunk.split = some ' ' ∧ chunk.leader = "") {head line tail : List Char}
    (text : (Chunk.join inside).toList = head ++ (line ++ '\n' :: tail))
    (starts : ∀ c ∈ head.getLast?, c = '\n') (whole : '\n' ∉ line) (filled : line ≠ [])
    (trimmed : Text.IsTrimmed line) (code : isDirective line = false) :
    ∃ depth wide start stop, Text.Widened line wide ∧
      (layOut page (front ++ (inside ++ back))).toList = start ++ (written (wrap page (some ' ') []
        (List.replicate (depth * page.indent) ' ') wide) ++ stop) := by
  have waiting := Printer.buffer_writeAll page ends
  obtain ⟨wide, before, widened, put⟩ := exists_put page waiting plain text starts whole
  have first := trimmed.head?_widened widened
  have codeToo : isDirective wide = false := by rwa [isDirective, first]
  have filledToo : wide ≠ [] := by
    rintro rfl
    exact filled (List.head?_eq_none_iff.mp first.symm)
  obtain ⟨depth, own⟩ :=
    Printer.exists_putLine page (some ' ') before filledToo (trimmed.widened widened) codeToo
  obtain ⟨more, output⟩ := put.trans (Printer.writeAll_extends page _ back)
  refine ⟨depth, wide, before.output.toList, more.toList ++
    (Printer.start.writeAll page (front ++ (inside ++ back))).buffer, widened, ?_⟩
  have parts : Printer.start.writeAll page (front ++ (inside ++ back)) =
      ((Printer.start.writeAll page front).writeAll page inside).writeAll page back := by
    simp only [Printer.writeAll, List.foldl_append]
  rw [layOut, Printer.flush, parts, output, own]
  simp only [String.toList_append, String.toList_ofList, toList_ended, List.append_assoc]

/-- A literal on a line of code that is laid out opens in the text. If it is escaped, it is read as
the text that it is made from just if the text has no tabs and the cuts in it rejoin; if it is not,
the text may not have characters that are escaped besides. -/
theorem Surrounds.exists_laid {before back : List Char} (surrounds : Surrounds before back)
    (noTab : '\t' ∉ before) (page : Page) {front inside behind : List Chunk}
    (ends : ∀ chunk ∈ front.getLast?, chunk.text.toList.getLast? = some '\n')
    (plain : ∀ chunk ∈ inside, chunk.split = some ' ' ∧ chunk.leader = "")
    {head quoted tail : List Char} (text : (Chunk.join inside).toList =
      head ++ (before ++ '"' :: (quoted ++ '"' :: back) ++ '\n' :: tail))
    (starts : ∀ c ∈ head.getLast?, c = '\n') (wholeBefore : '\n' ∉ before)
    (whole : '\n' ∉ quoted) :
    (∀ source, quoted = Text.escaped source → ReadsIff page before quoted back
      (layOut page (front ++ (inside ++ behind))).toList source ('\t' ∉ source)) ∧
      ReadsIff page before quoted back (layOut page (front ++ (inside ++ behind))).toList quoted
        ('\t' ∉ quoted ∧ '\\' ∉ quoted ∧ '"' ∉ quoted) := by
  obtain ⟨trimmed, code, -⟩ := surrounds.line quoted
  have wholeBack : '\n' ∉ back := fun member => absurd (surrounds.visible _ member) (by decide)
  have noTabBack : '\t' ∉ '"' :: back :=
    List.not_mem_cons_of_ne_of_not_mem (by decide) fun member =>
      absurd (surrounds.visible _ member) (by decide)
  obtain ⟨depth, wide, start, stop, widened, shown⟩ := exists_layOut page ends plain text starts
    (by simp [wholeBefore, whole, wholeBack]) (by simp) trimmed code
  obtain ⟨first, others, rfl, one, more⟩ := widened.exists_append
  obtain ⟨others, rfl, quotes⟩ := more.exists_cons (by decide)
  obtain ⟨content, last, rfl, two, three⟩ := quotes.exists_append
  obtain rfl := one.eq_of_no_tab noTab
  obtain rfl := three.eq_of_no_tab noTabBack
  obtain ⟨late, rest, opens, escaped, raw⟩ := surrounds.exists_opens shown
  obtain ⟨former, -, spliced⟩ := opens.exists_splice
  refine ⟨?_, depth, content, late, former, rest, two, opens, spliced, raw quoted two whole⟩
  rintro source rfl
  exact ⟨depth, content, late, former, rest, two, opens, spliced,
    escaped source two fun member => whole (Text.mem_escaped_of_mem member)⟩

end Code

end EncoderTables
