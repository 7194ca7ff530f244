import EncoderTables.Proofs.Code.Cuts
import EncoderTables.Proofs.Text.Scanning

/-!
# Continued lines

A wrapped line says the same as the whole one. Its pieces have the characters of the line between
them, in their order, and only blanks, comment leaders and marks of continuation besides. A
compiler sees the words of the line in them as long as it is cut between words or inside of
comments that go on: a comment that ends with its line goes on only if the whole line is a comment
or a directive.
-/

namespace EncoderTables.Code

open Text

/-- Lines one below the other. -/
def stacked (lines : List (List Char)) : List Char := List.intercalate ['\n'] lines

/-- A line for itself. -/
theorem stacked_singleton (line : List Char) : stacked [line] = line := by
  simp [stacked, List.intercalate]

/-- A line above others. -/
theorem stacked_cons (line : List Char) {others : List (List Char)} (filled : others ≠ []) :
    stacked (line :: others) = line ++ '\n' :: stacked others := by
  obtain ⟨second, rest, rfl⟩ := List.exists_cons_of_ne_nil filled
  simp [stacked, List.intercalate, List.intersperse]

/-- Without double quotes no literal begins or ends. -/
theorem togglesLiteral_eq_false {text : List Char} (clean : '"' ∉ text) :
    togglesLiteral text = false := by
  rw [togglesLiteral, List.count_eq_zero_of_not_mem clean]
  rfl

/-- A line that is a comment of its own. -/
def isComment (line : List Char) : Bool :=
  startsWith ['/', '/'] line || startsWith ['/', '*', '*'] line

/-- What stands between a piece and what is left of the line once continued lines are joined. -/
def inserted (directive : Bool) (next : List Char) : List Char :=
  (if directive then ' ' else '\n') :: next

/-- A cut between words of the line, or in a comment that goes on, given what has been scanned of
the line in front of it. -/
structure Cut.IsBetween (line : List Char) (scan : Scan) (cut : Cut) : Prop where
  spaces : ∀ c ∈ cut.gap, isSpace c = true ∧ c ≠ '\n'
  stops : isDirective line = true ∨ cut.front.getLast? ≠ some '\\'
  place : match scan.place with
    | .code => isComment line = false ∧ (cut.gap ≠ [] ∨ scan.word = [])
    | .slash => isComment line = false ∧ cut.gap ≠ []
    | .lineComment => isDirective line = true ∨ startsWith ['/', '/'] line = true
    | .blockComment => True
    | .star => cut.gap ≠ []
    | .constant | .escape => False

section Continuation

variable {page : Page} {margin line : List Char}

/-- A continuation of code has one more indentation. -/
theorem continuation_code (code : isComment line = false) :
    continuation page [] margin line = margin ++ List.replicate page.indent ' ' := by
  rw [isComment, Bool.or_eq_false_iff] at code
  simp [continuation, code.1, code.2]

/-- A continuation of a comment that ends with the line is one. -/
theorem continuation_lineComment (comment : startsWith ['/', '/'] line = true) :
    continuation page [] margin line = margin ++ ['/', '/', ' '] := by
  simp [continuation, comment]

/-- A continuation of another comment has a star. -/
theorem continuation_blockComment (comment : startsWith ['/', '*', '*'] line = true) :
    continuation page [] margin line = margin ++ [' ', '*', ' ', ' '] := by
  have other : startsWith ['/', '/'] line = false := by
    obtain ⟨rest, rfl⟩ := List.isPrefixOf_iff_prefix.mp comment
    rfl
  simp [continuation, other, comment]

/-- A continuation has no characters but those of the margin, blanks, slashes and stars. -/
theorem not_mem_continuation {c : Char} (clean : c ∉ margin) (other : c ∉ [' ', '/', '*']) :
    c ∉ continuation page [] margin line := by
  have added : c ∉ ['/', '/', ' '] ∧ c ∉ [' ', '*', ' ', ' '] ∧
      c ∉ List.replicate page.indent ' ' := by
    simp only [List.mem_cons, List.not_mem_nil, or_false, not_or] at other ⊢
    exact ⟨⟨other.2.1, other.2.1, other.1⟩, ⟨other.1, other.2.2, other.1, other.1⟩,
      fun member => other.1 (List.eq_of_mem_replicate member)⟩
  unfold continuation
  simp only [List.isEmpty_nil, Bool.not_true, Bool.false_eq_true, if_false]
  split
  · simp [clean, added.1]
  · split
    · simp [clean, added.2.1]
    · simp [clean, added.2.2]

/-- A comment goes on behind the start of a continuation. -/
theorem readAll_continuation (spaces : ∀ c ∈ margin, c = ' ') {scan : Scan}
    (comment : scan.place = .blockComment) :
    scan.readAll (continuation page [] margin line) = scan := by
  have clean : '*' ∉ margin := fun member => absurd (spaces _ member) (by decide)
  by_cases starred : startsWith ['/', '*', '*'] line = true
  · rw [continuation_blockComment starred, Scan.readAll_append,
      Scan.readAll_blockComment comment clean]
    obtain ⟨_, word, words⟩ := scan
    obtain rfl : _ = Place.blockComment := comment
    rfl
  · refine Scan.readAll_blockComment comment ?_
    by_cases slashed : startsWith ['/', '/'] line = true
    · rw [continuation_lineComment slashed, List.mem_append, not_or]
      exact ⟨clean, by decide⟩
    · have code : isComment line = false := by simp [isComment, slashed, starred]
      rw [continuation_code code, List.mem_append, not_or]
      exact ⟨clean, fun member => absurd (List.eq_of_mem_replicate member) (by decide)⟩

/-- A scan of code stays between words over a margin. -/
theorem readAll_margin (spaces : ∀ c ∈ margin, c = ' ') (words : List (List Char)) :
    Scan.readAll ⟨.code, [], words⟩ margin = ⟨.code, [], words⟩ := by
  have blank : ∀ c ∈ margin, isSpace c = true := by
    intro c member
    rw [spaces c member]
    rfl
  rw [Scan.readAll_spaces rfl blank (Or.inr rfl)]
  rfl

/-- A line comment goes on behind its line end, as the continuation begins another one. -/
theorem readAll_leader (spaces : ∀ c ∈ margin, c = ' ')
    (comment : startsWith ['/', '/'] line = true) {scan : Scan} (place : scan.place = .lineComment)
    (none : scan.word = []) :
    (scan.read '\n').readAll (continuation page [] margin line) = scan := by
  obtain ⟨_, word, words⟩ := scan
  obtain rfl : _ = Place.lineComment := place
  obtain rfl : word = [] := none
  calc
    _ = Scan.readAll ⟨.code, [], words⟩ (margin ++ ['/', '/', ' ']) := by
      rw [continuation_lineComment comment]
      rfl
    _ = Scan.readAll ⟨.code, [], words⟩ ['/', '/', ' '] := by
      rw [Scan.readAll_append, readAll_margin spaces]
    _ = ⟨.lineComment, [], words⟩ := rfl

/-- What stands between two pieces of code is blank. -/
theorem isSpace_inserted (spaces : ∀ c ∈ margin, c = ' ') (code : isComment line = false)
    (directive : Bool) :
    ∀ c ∈ inserted directive (continuation page [] margin line), isSpace c = true := by
  rw [continuation_code code]
  refine List.forall_mem_cons.mpr ⟨by cases directive <;> rfl, List.forall_mem_append.mpr ⟨?_, ?_⟩⟩
  · intro c member
    rw [spaces c member]
    rfl
  · intro c member
    rw [List.eq_of_mem_replicate member]
    rfl

/-- Where a cut is between words, the break reads as the blanks that are dropped there. -/
theorem readAll_inserted (page : Page) (spaces : ∀ c ∈ margin, c = ' ') {scan : Scan}
    (tidy : scan.IsTidy) {cut : Cut} (between : cut.IsBetween line scan) :
    scan.readAll (inserted (isDirective line) (continuation page [] margin line)) =
      scan.readAll cut.gap := by
  obtain ⟨gap, -, allowed⟩ := between
  have gapSpaces : ∀ c ∈ cut.gap, isSpace c = true := fun c member => (gap c member).1
  cases place : scan.place with
  | code =>
    rw [place] at allowed
    rw [Scan.readAll_spaces place (isSpace_inserted spaces allowed.1 _)
        (Or.inl (List.cons_ne_nil _ _)),
      Scan.readAll_spaces place gapSpaces allowed.2]
  | slash =>
    rw [place] at allowed
    rw [Scan.readAll_spaces_slash place (isSpace_inserted spaces allowed.1 _)
        (List.cons_ne_nil _ _),
      Scan.readAll_spaces_slash place gapSpaces allowed.2]
  | lineComment =>
    rw [place] at allowed
    rw [Scan.readAll_lineComment place fun member => (gap _ member).2 rfl]
    rcases allowed with directive | comment
    · have clean : '\n' ∉ continuation page [] margin line := by
        refine not_mem_continuation (fun member => ?_) (by decide)
        exact absurd (spaces _ member) (by decide)
      rw [inserted, if_pos directive]
      exact Scan.readAll_lineComment place (List.not_mem_cons_of_ne_of_not_mem (by decide) clean)
    · -- A line that starts with slashes is no directive.
      have code : isDirective line = false := by
        obtain ⟨rest, rfl⟩ := List.isPrefixOf_iff_prefix.mp comment
        rfl
      rw [inserted, code, if_neg Bool.false_ne_true, Scan.readAll_cons]
      exact readAll_leader spaces comment place (tidy (by simp [place]))
  | blockComment =>
    have same : scan.read (if isDirective line = true then ' ' else '\n') = scan := by
      have clean : '*' ∉ [if isDirective line = true then ' ' else '\n'] := by split <;> decide
      exact Scan.readAll_blockComment place clean
    rw [Scan.readAll_blockComment place fun member => absurd (gapSpaces _ member) (by decide),
      inserted, Scan.readAll_cons, same]
    exact readAll_continuation spaces place
  | star =>
    rw [place] at allowed
    have separates : isSpace (if isDirective line = true then ' ' else '\n') = true := by
      split <;> rfl
    have goesOn : scan.read (if isDirective line = true then ' ' else '\n') =
        { scan with place := .blockComment } :=
      Scan.readAll_spaces_star place (List.forall_mem_singleton.mpr separates)
        (List.cons_ne_nil _ _)
    rw [Scan.readAll_spaces_star place gapSpaces allowed, inserted, Scan.readAll_cons, goesOn]
    exact readAll_continuation spaces rfl
  | constant =>
    rw [place] at allowed
    exact allowed.elim
  | escape =>
    rw [place] at allowed
    exact allowed.elim

/-- Behind a break between joined pieces the scanner reads on as behind what the cut consumes. -/
theorem readAll_break (page : Page) (spaces : ∀ c ∈ margin, c = ' ') {scan : Scan}
    (tidy : scan.IsTidy) (cut : Cut)
    (between : cut.IsBetween line (scan.readAll (cut.lead ++ cut.front))) (text : List Char) :
    ((scan.readAll (cut.lead ++ cut.front)).read (if isDirective line then ' ' else '\n')).readAll
        (continuation page [] margin line ++ text) =
      scan.readAll (cut.lead ++ (cut.consumed ++ text)) := by
  have atBreak := readAll_inserted page spaces (tidy.readAll _) between
  rw [inserted, Scan.readAll_cons] at atBreak
  rw [Scan.readAll_append, atBreak, Cut.consumed, ← Scan.readAll_append, ← Scan.readAll_append,
    List.append_assoc, List.append_assoc]

end Continuation

namespace Cut.IsAtBreak

variable {split : Option Char} {cut : Cut}

/-- Once continued lines are joined, a blank stands behind a piece of a directive. A line end
stands behind another piece, unless it ends with a backslash. -/
theorem splice_piece (isAtBreak : cut.IsAtBreak split) {directive : Bool}
    (ends : cut.ending = endingFor directive false) (whole : '\n' ∉ cut.lead ++ cut.front)
    (stops : directive = true ∨ cut.front.getLast? ≠ some '\\') (others : List Char) :
    splice (cut.piece ++ '\n' :: others) =
      (cut.lead ++ cut.front) ++ (if directive then ' ' else '\n') :: splice others := by
  rw [Cut.piece, isAtBreak.kept_eq, ends]
  cases directive with
  | true =>
    have marked : '\n' ∉ cut.lead ++ cut.front ++ [' '] := by simpa using whole
    simpa [endingFor, Ending.text] using splice_continued marked others
  | false =>
    have last : (cut.lead ++ cut.front).getLast? ≠ some '\\' := by
      rw [List.getLast?_append_of_ne_nil _ isAtBreak.front_ne_nil]
      exact stops.resolve_left Bool.false_ne_true
    simpa [endingFor, Ending.text] using splice_ended whole last others

end Cut.IsAtBreak

namespace Broken

variable {page : Page} {split : Option Char} {directive inLiteral : Bool}
  {next lead body last : List Char} {cuts : List Cut}

/-- Without double quotes no literal is continued. -/
theorem ending_plain (broken : Broken page split false next inLiteral lead body cuts last)
    (quiet : inLiteral = false) (first : '"' ∉ lead) (line : '"' ∉ body) (later : '"' ∉ next) :
    ∀ cut ∈ cuts, cut.ending = .plain := by
  induction broken with
  | whole stays => exact List.forall_mem_nil _
  | @broken _ lead body position ending cuts last long found ends others inductionHypothesis =>
    have isAtBreak : Cut.IsAtBreak split ⟨lead, body, position, ending⟩ := Cut.isAtBreak found
    have clean : '"' ∉ keptUpTo (lead ++ body) position := fun member =>
      (isAtBreak.mem_of_mem_kept member).elim first line
    subst quiet
    rw [togglesLiteral_eq_false clean, bne_self_eq_false] at ends inductionHypothesis
    have rest := inductionHypothesis rfl later fun member =>
      line (isAtBreak.mem_body_of_mem_rest member)
    exact List.forall_mem_cons.mpr ⟨ends, rest⟩

/-- All pieces but the first start as a continuation does. -/
theorem next_prefix (broken : Broken page split directive next inLiteral lead body cuts last) :
    ∀ piece ∈ (cuts.map Cut.piece ++ [last]).tail, next <+: piece := by
  obtain ⟨rest, tail, -, ended, -⟩ := broken.exists_line
  cases cuts with
  | nil => exact List.forall_mem_nil _
  | cons first others =>
    rw [List.map_cons, List.cons_append, List.tail_cons, List.forall_mem_append]
    refine ⟨fun piece member => ?_, List.forall_mem_singleton.mpr ?_⟩
    · obtain ⟨cut, listed, rfl⟩ := List.mem_map.mp member
      have isAtBreak := broken.isAtBreak cut (List.mem_cons_of_mem _ listed)
      rw [Cut.piece, isAtBreak.kept_eq, broken.lead_later cut listed, List.append_assoc]
      exact List.prefix_append _ _
    · rw [ended, if_neg (List.cons_ne_nil _ _)]
      exact List.prefix_append _ _

/-- The pieces of a line that is no directive have its visible characters between those of their
leads. -/
theorem visible_pieces (broken : Broken page split directive next inLiteral lead body cuts last)
    (plain : ∀ cut ∈ cuts, cut.ending = .plain) (blank : AreBlank next) :
    visible (cuts.map Cut.piece ++ [last]).flatten = visible (lead ++ body) := by
  induction broken with
  | whole stays => simp
  | @broken _ lead body position ending cuts last long found ends others inductionHypothesis =>
    obtain ⟨own, later⟩ := List.forall_mem_cons.mp plain
    have isAtBreak : Cut.IsAtBreak split ⟨lead, body, position, ending⟩ := Cut.isAtBreak found
    obtain ⟨tail, hidden, line : body = _⟩ := isAtBreak.exists_tail
    have piece : Cut.piece ⟨lead, body, position, ending⟩ =
        lead ++ Cut.front ⟨lead, body, position, ending⟩ := by
      rw [Cut.piece, isAtBreak.kept_eq, own, Ending.text, List.append_nil]
    have gap := visible_eq_nil (Cut.areBlank_gap ⟨lead, body, position, ending⟩)
    have same : visible body =
        visible (Cut.front ⟨lead, body, position, ending⟩) ++
          visible (Cut.rest ⟨lead, body, position, ending⟩) := by
      refine (congrArg visible line).trans ?_
      simp only [Cut.consumed, visible_append, gap, visible_eq_nil hidden, List.append_nil]
    rw [List.map_cons, List.cons_append, List.flatten_cons, visible_append,
      inductionHypothesis later, piece, visible_append, visible_append, visible_append,
      visible_eq_nil blank, List.nil_append, same, List.append_assoc]

/-- Behind joined pieces the scanner stands where it stands behind the line. -/
theorem readAll_stacked {margin line : List Char} {inLiteral : Bool}
    (broken : Broken page split (isDirective line) (continuation page [] margin line) inLiteral
      lead body cuts last)
    (quiet : inLiteral = false) (spaces : ∀ c ∈ margin, c = ' ')
    (clean : ∀ c ∈ lead ++ body, c ≠ '"' ∧ c ≠ '\n') (trimmed : IsTrimmed body) {scan : Scan}
    (tidy : scan.IsTidy)
    (between : ∀ before cut after, cuts = before ++ cut :: after →
      cut.IsBetween line (scan.readAll (lead ++ (before.flatMap Cut.consumed ++ cut.front)))) :
    scan.readAll (splice (stacked (cuts.map Cut.piece ++ [last]))) =
      scan.readAll (lead ++ body) := by
  have spaced {c : Char} (other : c ∉ [' ', '/', '*']) :
      c ∉ continuation page [] margin line :=
    not_mem_continuation (fun member => other (by simp [spaces _ member])) other
  induction broken generalizing scan with
  | @whole _ lead body stays =>
    rw [List.map_nil, List.nil_append, stacked_singleton,
      splice_whole fun member => (clean _ member).2 rfl]
  | @broken _ lead body position ending cuts last long found ends others inductionHypothesis =>
    subst quiet
    have isAtBreak : Cut.IsAtBreak split ⟨lead, body, position, ending⟩ := Cut.isAtBreak found
    have parts : body = Cut.consumed ⟨lead, body, position, ending⟩ ++
        Cut.rest ⟨lead, body, position, ending⟩ := isAtBreak.body_trimmed trimmed
    have inside {c : Char} (member : c ∈ Cut.kept ⟨lead, body, position, ending⟩) :
        c ≠ '"' ∧ c ≠ '\n' :=
      clean c (List.mem_append.mpr (isAtBreak.mem_of_mem_kept member))
    have quotes : '"' ∉ keptUpTo (lead ++ body) position := fun member => (inside member).1 rfl
    rw [togglesLiteral_eq_false quotes, bne_self_eq_false] at ends inductionHypothesis
    have own := between [] ⟨lead, body, position, ending⟩ cuts rfl
    rw [List.flatMap_nil, List.nil_append] at own
    have joined : splice (stacked ((Cut.piece ⟨lead, body, position, ending⟩) ::
          (cuts.map Cut.piece ++ [last]))) =
        (lead ++ Cut.front ⟨lead, body, position, ending⟩) ++
          (if isDirective line then ' ' else '\n') ::
            splice (stacked (cuts.map Cut.piece ++ [last])) := by
      rw [stacked_cons _ (by simp)]
      refine isAtBreak.splice_piece ends (fun member => ?_) own.stops _
      rw [← isAtBreak.kept_eq] at member
      exact (inside member).2 rfl
    have behind := readAll_break page spaces tidy ⟨lead, body, position, ending⟩ own
    have tidyToo : ((scan.readAll (lead ++ Cut.front ⟨lead, body, position, ending⟩)).read
        (if isDirective line then ' ' else '\n')).IsTidy := (tidy.readAll _).read _
    rw [List.map_cons, List.cons_append, joined, Scan.readAll_append, Scan.readAll_cons,
      inductionHypothesis rfl ?_ (isTrimmed_trim _) tidyToo ?_, behind, ← parts]
    · intro c member
      rcases List.mem_append.mp member with added | rest
      · constructor
        · rintro rfl
          exact spaced (by decide) added
        · rintro rfl
          exact spaced (by decide) added
      · exact clean c (List.mem_append_right _ (isAtBreak.mem_body_of_mem_rest rest))
    · rintro before cut after rfl
      have shifted := between (⟨lead, body, position, ending⟩ :: before) cut after rfl
      rw [List.flatMap_cons, List.append_assoc] at shifted
      rw [behind]
      exact shifted

/-- A directive stays on one line once continued lines are joined. -/
theorem whole_stacked (broken : Broken page split true next inLiteral lead body cuts last)
    (first : '\n' ∉ lead) (line : '\n' ∉ body) (later : '\n' ∉ next) :
    '\n' ∉ splice (stacked (cuts.map Cut.piece ++ [last])) := by
  induction broken with
  | @whole _ lead body stays =>
    have whole : '\n' ∉ lead ++ body := by simp [first, line]
    rw [List.map_nil, List.nil_append, stacked_singleton, splice_whole whole]
    exact whole
  | @broken _ lead body position ending cuts last long found ends others inductionHypothesis =>
    have isAtBreak : Cut.IsAtBreak split ⟨lead, body, position, ending⟩ := Cut.isAtBreak found
    have whole : '\n' ∉ lead ++ Cut.front ⟨lead, body, position, ending⟩ := by
      rw [← isAtBreak.kept_eq]
      exact fun member => (isAtBreak.mem_of_mem_kept member).elim first line
    have rest := inductionHypothesis later fun member =>
      line (isAtBreak.mem_body_of_mem_rest member)
    rw [List.map_cons, List.cons_append, stacked_cons _ (by simp),
      isAtBreak.splice_piece ends whole (Or.inl rfl), List.mem_append, not_or, if_pos rfl]
    exact ⟨whole, List.not_mem_cons_of_ne_of_not_mem (by decide) rest⟩

/-- The first piece of a line comment starts as one. -/
theorem slashes_prefix {inLiteral : Bool} {line : List Char}
    (broken : Broken page split directive next inLiteral lead ('/' :: '/' :: line) cuts last) :
    ∀ piece ∈ (cuts.map Cut.piece ++ [last]).head?, lead ++ ['/', '/'] <+: piece := by
  cases broken with
  | whole stays => simp
  | @broken _ _ _ position ending cuts last long found ends others =>
    have isAtBreak : Cut.IsAtBreak split ⟨lead, '/' :: '/' :: line, position, ending⟩ :=
      Cut.isAtBreak found
    obtain ⟨c, -, atBreak, shape, -⟩ := isAtBreak.exists_body
    rw [← isAtBreak.getElem?_body] at atBreak
    have behind := isAtBreak.behind
    obtain ⟨count, counted⟩ : ∃ count, position - lead.length = count + 1 :=
      Nat.exists_eq_succ_of_ne_zero (Nat.sub_ne_zero_of_lt behind)
    rw [counted] at atBreak shape
    have start : ['/', '/'] <+: Cut.front ⟨lead, '/' :: '/' :: line, position, ending⟩ := by
      cases count with
      | zero =>
        -- The break is the second slash itself, which is kept.
        obtain rfl : '/' = c := Option.some.inj atBreak
        rw [shape]
        simp
      | succ count =>
        rw [shape]
        simp
    rw [List.map_cons, List.cons_append, List.head?_cons]
    rintro piece ⟨⟩
    rw [Cut.piece, isAtBreak.kept_eq, List.append_assoc]
    exact (List.prefix_append_right_inj lead).mpr (start.trans (List.prefix_append _ _))

end Broken

/-- The cuts of a line keep at least one character of it in each piece and drop only blanks. The
first piece starts with the margin and all others as a continuation does. -/
structure Divides (margin next line : List Char) (cuts : List Cut) (last : List Char) : Prop where
  few : cuts.length ≤ line.length
  kept : ∀ cut ∈ cuts, cut.kept = cut.lead ++ cut.front ∧ cut.front ≠ []
  first : ∀ cut ∈ cuts.head?, cut.lead = margin
  later : ∀ cut ∈ cuts.tail, cut.lead = next
  line : ∃ rest tail, AreBlank tail ∧ line = cuts.flatMap Cut.consumed ++ (rest ++ tail) ∧
    last = (if cuts = [] then margin else next) ++ rest

namespace Wrapped

variable {page : Page} {split : Option Char} {leader margin line last : List Char}
  {cuts : List Cut}

/-- A wrapped line is divided. -/
theorem divides (wrapped : Wrapped page split leader margin line cuts last) :
    Divides margin (continuation page leader margin line) line cuts last := by
  cases wrapped with
  | whole narrow =>
    exact ⟨Nat.zero_le _, List.forall_mem_nil _, by simp, List.forall_mem_nil _,
      line, [], List.forall_mem_nil _, by simp, rfl⟩
  | broken room broken =>
    obtain ⟨rest, tail, blank, ended, parts⟩ := broken.exists_line
    exact ⟨broken.length_le, fun cut member =>
      ⟨(broken.isAtBreak cut member).kept_eq, (broken.isAtBreak cut member).front_ne_nil⟩,
      broken.lead_first, broken.lead_later, rest, tail, blank, parts, ended⟩

/-- All pieces but the first start as a continuation does. -/
theorem next_prefix (wrapped : Wrapped page split leader margin line cuts last) :
    ∀ piece ∈ (cuts.map Cut.piece ++ [last]).tail,
      continuation page leader margin line <+: piece := by
  cases wrapped with
  | whole narrow => exact List.forall_mem_nil _
  | broken room broken => exact broken.next_prefix

/-- All cuts are at breaks. -/
theorem isAtBreak (wrapped : Wrapped page split leader margin line cuts last) :
    ∀ cut ∈ cuts, cut.IsAtBreak split := by
  cases wrapped with
  | whole narrow => exact List.forall_mem_nil _
  | broken room broken => exact broken.isAtBreak

/-- Code without string literals is cut without marks and keeps its visible characters. -/
theorem code_pieces (wrapped : Wrapped page split [] margin line cuts last)
    (spaces : ∀ c ∈ margin, c = ' ') (bare : '"' ∉ line) (code : isDirective line = false)
    (comment : isComment line = false) :
    (∀ cut ∈ cuts, cut.ending = .plain) ∧
      visible (cuts.map Cut.piece ++ [last]).flatten = visible line := by
  have hidden : visible margin = [] := by
    refine visible_eq_nil fun c member => ?_
    rw [spaces c member]
    rfl
  have unquoted : '"' ∉ margin := fun member => absurd (spaces _ member) (by decide)
  cases wrapped with
  | whole narrow => exact ⟨List.forall_mem_nil _, by simp [hidden]⟩
  | broken room broken =>
    rw [code] at broken
    have plain := broken.ending_plain rfl unquoted bare (not_mem_continuation unquoted (by decide))
    refine ⟨plain, ?_⟩
    have blank : AreBlank (continuation page [] margin line) := by
      rw [continuation_code comment]
      refine AreBlank.append (fun c member => ?_) (areBlank_replicate _)
      rw [spaces c member]
      rfl
    rw [broken.visible_pieces plain blank, visible_append, hidden, List.nil_append]

/-- Each piece of a line comment is one. -/
theorem lineComment_pieces (wrapped : Wrapped page split [] margin line cuts last)
    (comment : startsWith ['/', '/'] line = true) :
    ∀ piece ∈ cuts.map Cut.piece ++ [last], margin ++ ['/', '/'] <+: piece := by
  have later := wrapped.next_prefix
  rw [continuation_lineComment comment] at later
  obtain ⟨rest, rfl⟩ := List.isPrefixOf_iff_prefix.mp comment
  have first : ∀ piece ∈ (cuts.map Cut.piece ++ [last]).head?, margin ++ ['/', '/'] <+: piece := by
    cases wrapped with
    | whole narrow => simp
    | broken room broken => exact broken.slashes_prefix
  have leads : margin ++ ['/', '/'] <+: margin ++ ['/', '/', ' '] :=
    (List.prefix_append_right_inj margin).mpr ⟨[' '], rfl⟩
  cases pieces : cuts.map Cut.piece ++ [last] with
  | nil => exact List.forall_mem_nil _
  | cons piece others =>
    rw [pieces] at first later
    exact List.forall_mem_cons.mpr ⟨first piece rfl,
      fun other member => leads.trans (later other member)⟩

/-- A directive is continued by backslashes and stays on one line. -/
theorem directive_pieces (wrapped : Wrapped page split [] margin line cuts last)
    (spaces : ∀ c ∈ margin, c = ' ') (directive : isDirective line = true) :
    (∀ piece ∈ (cuts.map Cut.piece ++ [last]).dropLast, [' ', '\\'] <:+ piece) ∧
      ('\n' ∉ line → '\n' ∉ splice (stacked (cuts.map Cut.piece ++ [last]))) := by
  have clean : '\n' ∉ margin := fun member => absurd (spaces _ member) (by decide)
  rw [List.dropLast_concat]
  cases wrapped with
  | whole narrow =>
    refine ⟨List.forall_mem_nil _, fun whole => ?_⟩
    have own : '\n' ∉ margin ++ line := by simp [clean, whole]
    rw [List.map_nil, List.nil_append, stacked_singleton, splice_whole own]
    exact own
  | broken room broken =>
    rw [directive] at broken
    refine ⟨fun piece member => ?_, fun whole =>
      broken.whole_stacked clean whole (not_mem_continuation clean (by decide))⟩
    obtain ⟨cut, listed, rfl⟩ := List.mem_map.mp member
    rw [Cut.piece, broken.ending_directive cut listed]
    exact List.suffix_append _ _

/-- A compiler sees the words of the line in its pieces when each cut is between words or in a
comment that goes on. -/
theorem seen_pieces (wrapped : Wrapped page split [] margin line cuts last)
    (spaces : ∀ c ∈ margin, c = ' ') (trimmed : IsTrimmed line) (bare : '"' ∉ line)
    (whole : '\n' ∉ line)
    (between : ∀ before cut after, cuts = before ++ cut :: after → cut.IsBetween line
      (Scan.start.readAll (before.flatMap Cut.consumed ++ cut.front))) :
    seen (stacked (cuts.map Cut.piece ++ [last])) = seen line := by
  have skipped : Scan.start.readAll margin = Scan.start := readAll_margin spaces []
  have clean : ∀ c ∈ margin ++ line, c ≠ '"' ∧ c ≠ '\n' := by
    refine List.forall_mem_append.mpr ⟨fun c member => ?_, fun c member => ?_⟩
    · rw [spaces c member]
      decide
    · exact ⟨fun same => bare (same ▸ member), fun same => whole (same ▸ member)⟩
  have scanned : Scan.start.readAll (splice (stacked (cuts.map Cut.piece ++ [last]))) =
      Scan.start.readAll (margin ++ line) := by
    cases wrapped with
    | whole narrow =>
      have own : '\n' ∉ margin ++ line := fun member => (clean _ member).2 rfl
      rw [List.map_nil, List.nil_append, stacked_singleton, splice_whole own]
    | broken room broken =>
      refine broken.readAll_stacked rfl spaces clean trimmed (fun _ => rfl) ?_
      intro before cut after parts
      rw [Scan.readAll_append, skipped]
      exact between before cut after parts
  rw [seen, seen, splice_whole whole, scanned, Scan.readAll_append, skipped]

end Wrapped

/-- What a line is wrapped into. It is divided into pieces of at least one character each. If it is
trimmed, without double quotes, behind blanks and without a leader, its visible characters stay,
code is cut at blanks or behind the preferred character but not behind a single quote and continued
with one more indentation, a line comment is continued as one, and a directive by a backslash. And
a compiler sees the words of the line in the pieces when each cut is between words or in a comment
that goes on. -/
theorem wrap_keeps (page : Page) (split : Option Char) (leader margin line : List Char) :
    ∃ cuts last, Wrapped page split leader margin line cuts last ∧
      wrap page split leader margin line = cuts.map Cut.piece ++ [last] ∧
      Divides margin (continuation page leader margin line) line cuts last ∧
      (line ≠ [] → IsTrimmed line → '"' ∉ line → (∀ c ∈ margin, c = ' ') → leader = [] →
        (isDirective line = false → isComment line = false →
          visible (wrap page split leader margin line).flatten = visible line ∧
          (∀ cut ∈ cuts, ∃ c ∈ breakChars split, cut.text[cut.position]? = some c ∧
            cut.text[cut.position - 1]? ≠ some '\x27' ∧
            cut.piece = cut.text.take cut.position ++ if c = ' ' then [] else [c]) ∧
          ∀ piece ∈ (wrap page split leader margin line).tail,
            margin ++ List.replicate page.indent ' ' <+: piece) ∧
        (startsWith ['/', '/'] line = true →
          ∀ piece ∈ wrap page split leader margin line, margin ++ ['/', '/'] <+: piece) ∧
        (isDirective line = true →
          (∀ piece ∈ (wrap page split leader margin line).dropLast, [' ', '\\'] <:+ piece) ∧
          ('\n' ∉ line → '\n' ∉ splice (stacked (wrap page split leader margin line)))) ∧
        ('\n' ∉ line →
          (∀ before cut after, cuts = before ++ cut :: after → cut.IsBetween line
            (Scan.start.readAll (before.flatMap Cut.consumed ++ cut.front))) →
          seen (stacked (wrap page split leader margin line)) = seen line)) := by
  obtain ⟨cuts, last, wrapped, pieces⟩ := exists_wrapped page split leader margin line
  refine ⟨cuts, last, wrapped, pieces, wrapped.divides, ?_⟩
  rw [pieces]
  rintro - trimmed bare spaces rfl
  refine ⟨fun code comment => ?_, wrapped.lineComment_pieces, wrapped.directive_pieces spaces,
    wrapped.seen_pieces spaces trimmed bare⟩
  obtain ⟨plain, kept⟩ := wrapped.code_pieces spaces bare code comment
  refine ⟨kept, fun cut member => ?_, ?_⟩
  · obtain ⟨c, listed, found, unquoted⟩ := (wrapped.isAtBreak cut member).broken
    refine ⟨c, listed, found, unquoted, ?_⟩
    rw [Cut.piece, plain cut member, Cut.kept, keptUpTo_eq found, Ending.text, List.append_nil]
  · rw [← continuation_code comment]
    exact wrapped.next_prefix

/-- A call with three arguments. -/
def threeArguments : List Char := "call(aaaa, bbbb, cccc);".toList

/-- A call that is cut behind a comma keeps its words; a comment and a directive go on. -/
theorem wrap_keeps_call :
    seen (stacked (wrap ⟨2, 20⟩ (some ',') [] [' '] threeArguments)) = seen threeArguments ∧
    visible (wrap ⟨2, 20⟩ (some ',') [] [' '] threeArguments).flatten = visible threeArguments ∧
    (∀ piece ∈ wrap ⟨2, 20⟩ (some ' ') [] [' '] "// aaaa bbbb cccc dddd".toList,
      [' ', '/', '/'] <+: piece) ∧
    ∀ piece ∈ (wrap ⟨2, 20⟩ (some ' ') [] [] "#define AAAA (bbbb + cccc)".toList).dropLast,
      [' ', '\\'] <:+ piece := by
  have spaces : ∀ c ∈ [' '], c = ' ' := List.forall_mem_singleton.mpr rfl
  obtain ⟨cuts, last, wrapped, -, -, keeps⟩ :=
    wrap_keeps ⟨2, 20⟩ (some ',') [] [' '] threeArguments
  obtain ⟨code, -, -, words⟩ := keeps (by decide) (by decide) (by decide) spaces rfl
  obtain ⟨_, _, -, -, -, comments⟩ :=
    wrap_keeps ⟨2, 20⟩ (some ' ') [] [' '] "// aaaa bbbb cccc dddd".toList
  obtain ⟨-, comment, -, -⟩ := comments (by decide) (by decide) (by decide) spaces rfl
  obtain ⟨_, _, -, -, -, directives⟩ :=
    wrap_keeps ⟨2, 20⟩ (some ' ') [] [] "#define AAAA (bbbb + cccc)".toList
  obtain ⟨-, -, directive, -⟩ :=
    directives (by decide) (by decide) (by decide) (List.forall_mem_nil _) rfl
  refine ⟨words (by decide) fun before cut after parts => ?_, (code (by decide) (by decide)).1,
    comment (by decide), (directive (by decide)).1⟩
  cases wrapped with
  | whole narrow => exact absurd narrow (by decide)
  | broken room broken =>
    cases broken with
    | whole stays => exact absurd (stays (by decide)) (by decide)
    | @broken _ _ _ position ending cuts _ long found ends others =>
      have atComma : breakAt? ([' '] ++ threeArguments) 20 (some ',') 1 = some 16 := by decide
      obtain rfl : position = 16 := Option.some.inj (found.symm.trans atComma)
      obtain rfl : ending = .plain := ends.trans (by decide)
      cases others with
      | broken long _ _ _ => exact absurd long (by decide)
      | whole stays =>
        obtain ⟨rfl, rfl, rfl⟩ : before = [] ∧ cut = ⟨[' '], threeArguments, 16, .plain⟩ ∧
            after = [] := by
          cases before with
          | nil => simpa [eq_comm] using parts
          | cons first before => simp at parts
        have gap : Cut.gap ⟨[' '], threeArguments, 16, .plain⟩ = [' '] := by decide
        have spaces : ∀ c ∈ Cut.gap ⟨[' '], threeArguments, 16, .plain⟩,
            isSpace c = true ∧ c ≠ '\n' := gap ▸ List.forall_mem_singleton.mpr (by decide)
        exact ⟨spaces, Or.inr (by decide), by decide, Or.inl (by decide)⟩

/-- A comment behind code is not continued as one. -/
example : seen (stacked (wrap ⟨2, 20⟩ (some ' ') [] [] "x = 1; // aaaa bbbb cccc dddd".toList)) ≠
    seen "x = 1; // aaaa bbbb cccc dddd".toList := by
  decide +kernel

end EncoderTables.Code
