import EncoderTables.Proofs.Code.Continuations
import EncoderTables.Proofs.Text.Literals

/-!
# Literals in wrapped lines

A string literal in a wrapped line is cut at the blanks in it. What is read of it has the
start of a continuation in the place of the blanks that each cut drops, so it is read as it was
just if these are the same, and it is not read as it was unless each cut is marked as one inside of
a literal. A text with double quotes or backslashes that is not escaped is never read as it is.
-/

namespace EncoderTables.Code

open Text

/-- Lines as they are written, each with its end. -/
def written (lines : List (List Char)) : List Char := lines.flatMap (· ++ ['\n'])

/-- Lines are written one behind the other. -/
theorem written_append (first second : List (List Char)) :
    written (first ++ second) = written first ++ written second := List.flatMap_append

/-- A line is written with its end. -/
theorem written_cons (line : List Char) (others : List (List Char)) :
    written (line :: others) = line ++ '\n' :: written others := by
  simp [written]

/-- What is read of a literal whose line has been cut in it: at each cut, the start of a continuation
instead of the blanks that are dropped. -/
inductive Joins (next : List Char) : List Cut → (source read : List Char) → Prop where
  | whole (source : List Char) : Joins next [] source source
  | cut {cut : Cut} {cuts : List Cut} {source read : List Char} (front : List Char)
    (dropped : cut.gap ≠ []) (starts : ∀ c ∈ source.head?, isBlank c = false)
    (others : Joins next cuts source read) :
    Joins next (cut :: cuts) (front ++ (cut.gap ++ source)) (front ++ (next ++ read))

namespace Joins

variable {next source read : List Char} {cuts : List Cut}

/-- A literal is read from its first character on unless it is cut in front of it. -/
theorem head?_eq (joins : Joins next cuts source read)
    (starts : ∀ c ∈ source.head?, isBlank c = false) : read.head? = source.head? := by
  cases joins with
  | whole => rfl
  | @cut cut _ source _ front dropped =>
    cases front with
    | nil =>
      obtain ⟨c, gap, first⟩ := List.exists_cons_of_ne_nil dropped
      have blank := cut.areBlank_gap c (first ▸ List.mem_cons_self)
      rw [starts c (by simp [first])] at blank
      cases blank
    | cons c front => rfl

/-- A literal is read as it was just if each cut drops what a continuation starts with. -/
theorem eq_iff (joins : Joins next cuts source read) (blank : AreBlank next) :
    read = source ↔ ∀ cut ∈ cuts, cut.gap = next := by
  induction joins with
  | whole => simp
  | @cut cut cuts source read front dropped starts others inductionHypothesis =>
    rw [List.append_right_inj, List.forall_mem_cons, ← inductionHypothesis]
    constructor
    · intro same
      have startsToo : ∀ c ∈ read.head?, isBlank c = false := by rwa [others.head?_eq starts]
      have blanks := congrArg (List.takeWhile isBlank) same
      rw [takeWhile_blanks blank startsToo, takeWhile_blanks cut.areBlank_gap starts] at blanks
      rw [blanks] at same
      exact ⟨blanks.symm, List.append_cancel_left same⟩
    · rintro ⟨rfl, rfl⟩
      rfl

/-- Only characters of the literal and of a continuation are read. -/
theorem not_mem {c : Char} (joins : Joins next cuts source read) (own : c ∉ source)
    (added : c ∉ next) : c ∉ read := by
  induction joins with
  | whole => exact own
  | cut front dropped starts others inductionHypothesis =>
    simp only [List.mem_append, not_or] at own ⊢
    exact ⟨own.1, added, inductionHypothesis own.2.2⟩

end Joins

/-- A part of a line that its first piece holds if the line is cut. -/
def HoldsFirst (part : List Char) (cuts : List Cut) : Prop := ∀ cut ∈ cuts.head?, part <+: cut.front

/-- A cut at a blank drops it. -/
theorem Cut.IsAtBreak.gap_ne_nil {cut : Cut} (isAtBreak : cut.IsAtBreak (some ' ')) :
    cut.gap ≠ [] := by
  obtain ⟨c, listed, -, -, parts⟩ := isAtBreak.exists_body
  obtain rfl : c = ' ' := List.mem_singleton.mp listed
  rw [if_pos rfl] at parts
  have back : cut.behind = ' ' :: cut.body.drop (cut.position + 1 - cut.lead.length) :=
    List.append_cancel_left (isAtBreak.body_eq.symm.trans parts)
  rw [Cut.gap, back, List.takeWhile_cons_of_pos (by decide)]
  exact List.cons_ne_nil _ _

/-- Blanks at the start belong to the text in front of one that does not start with a blank. -/
theorem exists_others {text stop blanks rest : List Char} (same : text ++ stop = blanks ++ rest)
    (blank : AreBlank blanks) (starts : ∀ c ∈ stop.head?, isBlank c = false) :
    ∃ others, text = blanks ++ others ∧ rest = others ++ stop := by
  rcases List.append_eq_append_iff.mp same with ⟨more, front, back⟩ | ⟨others, front, back⟩
  · cases more with
    | nil => exact ⟨[], by simpa using front.symm, by simpa using back.symm⟩
    | cons c more =>
      have seen := starts c (by simp [back])
      rw [blank c (by simp [front])] at seen
      cases seen
  · exact ⟨others, front, back⟩

/-- Blanks in front of a visible text belong to what stands before it. -/
theorem exists_before {text stop own blanks rest : List Char}
    (same : text ++ stop = own ++ (blanks ++ rest)) (blank : AreBlank blanks)
    (visible : ∀ c ∈ stop, isBlank c = false) (filled : blanks ≠ []) :
    ∃ others, text = own ++ (blanks ++ others) ∧ rest = others ++ stop := by
  rcases List.append_eq_append_iff.mp same with ⟨more, rfl, back⟩ | ⟨more, rfl, back⟩
  · obtain ⟨c, others, rfl⟩ := List.exists_cons_of_ne_nil filled
    have seen := visible c (by simp [back])
    rw [blank c List.mem_cons_self] at seen
    cases seen
  · obtain ⟨others, rfl, rest⟩ := exists_others back.symm blank fun c first =>
      visible c (List.mem_of_mem_head? first)
    exact ⟨others, rfl, rest⟩

/-- A continuation stands behind what it continues once their lines are joined. -/
theorem splice_next {own next : List Char} (whole : '\n' ∉ own) (line : '\n' ∉ next)
    (blank : AreBlank next) (later : List Char) :
    splice (own ++ '\\' :: '\n' :: (next ++ later)) = own ++ (next ++ splice later) := by
  rw [splice_continued whole, splice_append line fun slash =>
    absurd (blank _ (List.mem_of_getLast? slash)) (by decide)]

/-- How far a literal is read in a text: to its last quote, or to a line end before that, over no
more visible characters than it has. They are fewer if some are lost. -/
def Reaches (content back : List Char) (loses : Prop) (text : List Char) : Prop :=
  ∃ reach rest, (visible reach).length ≤ (visible content).length ∧
    (text = reach ++ '"' :: (back ++ '\n' :: rest) ∧
      (loses → (visible reach).length < (visible content).length) ∨
    text = reach ++ '\n' :: rest)

namespace Reaches

variable {content back text : List Char} {loses : Prop}

/-- A literal behind blanks that give way to others. -/
theorem behind {gap next own front : List Char} {more : Prop}
    (reaches : Reaches content back loses text) (dropped : AreBlank gap) (blank : AreBlank next)
    (few : (visible front).length ≤ (visible own).length)
    (fewer : more → loses ∨ (visible front).length < (visible own).length) :
    Reaches (own ++ (gap ++ content)) back more (front ++ (next ++ text)) := by
  obtain ⟨reach, rest, within, reached⟩ := reaches
  have read : (visible (front ++ (next ++ reach))).length =
      (visible front).length + (visible reach).length := by
    simp [visible_eq_nil blank]
  have all : (visible (own ++ (gap ++ content))).length =
      (visible own).length + (visible content).length := by
    simp [visible_eq_nil dropped]
  refine ⟨front ++ (next ++ reach), rest, by omega, ?_⟩
  rcases reached with ⟨closed, less⟩ | ended
  · refine Or.inl ⟨by simp [closed], fun lost => ?_⟩
    rcases fewer lost with later | here
    · have := less later
      omega
    · omega
  · exact Or.inr (by simp [ended])

/-- Behind a cut that is marked as one inside of a literal no more is lost than later on. -/
theorem marked {gap next own later : List Char} {more : Prop}
    (reaches : Reaches content back loses (splice later)) (dropped : AreBlank gap)
    (blank : AreBlank next) (line : '\n' ∉ next) (whole : '\n' ∉ own) (leads : more → loses) :
    Reaches (own ++ (gap ++ content)) back more
      (splice (own ++ '\\' :: '\n' :: (next ++ later))) := by
  rw [splice_next whole line blank]
  exact reaches.behind dropped blank (Nat.le_refl _) fun lost => Or.inl (leads lost)

/-- At another cut the literal is left with its line, or loses the backslash in front of the cut. -/
theorem unmarked {gap next own later : List Char} (more : Prop)
    (reaches : Reaches content back loses (splice later)) (dropped : AreBlank gap)
    (blank : AreBlank next) (line : '\n' ∉ next) (whole : '\n' ∉ own) :
    Reaches (own ++ (gap ++ content)) back more (splice (own ++ '\n' :: (next ++ later))) := by
  by_cases slash : own.getLast? = some '\\'
  · obtain ⟨front, rfl⟩ := List.getLast?_eq_some_iff.mp slash
    have one : (visible ['\\']).length = 1 := by decide
    have fewer : (visible front).length < (visible (front ++ ['\\'])).length := by
      rw [visible_append, List.length_append, one]
      exact Nat.lt_succ_self _
    have joined : splice (front ++ ['\\'] ++ '\n' :: (next ++ later)) =
        front ++ (next ++ splice later) := by
      rw [List.append_assoc, List.singleton_append]
      exact splice_next (fun member => whole (List.mem_append_left _ member)) line blank later
    rw [joined]
    exact reaches.behind dropped blank fewer.le fun _ => Or.inr fewer
  · refine ⟨own, splice (next ++ later), ?_, Or.inr (splice_ended whole slash _)⟩
    rw [visible_append, List.length_append]
    exact Nat.le_add_right _ _

/-- What is read is no longer than the literal once it is escaped, and shorter if visible characters
are lost. -/
theorem length_le (reaches : Reaches content back loses text) (clean : '"' ∉ back)
    {read after : List Char} (found : literal? text = some (read, after)) :
    (visible (escaped read)).length ≤ (visible content).length ∧
      (loses → (visible (escaped read)).length < (visible content).length) := by
  obtain ⟨reach, rest, within, ⟨closed, less⟩ | ended⟩ := reaches
  · have few := literal?_of_closed found closed clean
    exact ⟨few.trans within, fun lost => few.trans_lt (less lost)⟩
  · have fewer := (literal?_of_open found ended).trans_le within
    exact ⟨fewer.le, fun _ => fewer⟩

end Reaches

section Pieces

variable {page : Page} {inLiteral : Bool} {next lead part content back behind last : List Char}
  {cuts : List Cut}

/-- What is written of a literal that is not cut. -/
theorem behind_uncut
    (shown : written [lead ++ (part ++ (content ++ '"' :: back))] = lead ++ (part ++ behind)) :
    behind = content ++ '"' :: (back ++ ['\n']) := by
  simp only [written, List.flatMap_singleton, List.append_assoc,
    List.append_cancel_left_eq] at shown
  simpa using shown.symm

/-- What is written of a line behind a part that its first piece holds. -/
theorem Broken.exists_behind (part : List Char) {text : List Char}
    (broken : Broken page (some ' ') false next inLiteral lead (part ++ text) cuts last)
    (holds : HoldsFirst part cuts) :
    ∃ behind, written (cuts.map Cut.piece ++ [last]) = lead ++ (part ++ behind) := by
  cases broken with
  | whole stays => exact ⟨text ++ ['\n'], by simp [written]⟩
  | @broken _ _ _ position ending cuts _ long found ends others =>
    have isAtBreak : Cut.IsAtBreak (some ' ') ⟨lead, part ++ text, position, ending⟩ :=
      Cut.isAtBreak found
    obtain ⟨own, front⟩ := holds ⟨lead, part ++ text, position, ending⟩ rfl
    rw [List.map_cons, List.cons_append, written_cons, Cut.piece, isAtBreak.kept_eq, ← front]
    exact ⟨_, by simp only [List.append_assoc]; rfl⟩

/-- A literal that is cut: what stands in front of the cut, the blanks that are dropped, and what is
left, which is written behind the start of a continuation. -/
theorem Broken.exists_next {cut : Cut}
    (broken : Broken page (some ' ') false next inLiteral lead (part ++ (content ++ '"' :: back))
      (cut :: cuts) last)
    (holds : HoldsFirst part (cut :: cuts)) (trimmed : IsTrimmed (part ++ (content ++ '"' :: back)))
    (visible : ∀ c ∈ back, isBlank c = false)
    (shown : written ((cut :: cuts).map Cut.piece ++ [last]) = lead ++ (part ++ behind)) :
    ∃ own others later stillOpen, content = own ++ (cut.gap ++ others) ∧ cut.gap ≠ [] ∧
      cut.ending ≠ .directive ∧ IsTrimmed (others ++ '"' :: back) ∧
      Broken page (some ' ') false next stillOpen next (others ++ '"' :: back) cuts last ∧
      written (cuts.map Cut.piece ++ [last]) = next ++ later ∧
      behind = own ++ (cut.ending.text ++ '\n' :: (next ++ later)) := by
  cases broken with
  | @broken _ _ _ position ending _ _ long found ends others =>
    have isAtBreak : Cut.IsAtBreak (some ' ')
        ⟨lead, part ++ (content ++ '"' :: back), position, ending⟩ := Cut.isAtBreak found
    obtain ⟨own, front⟩ := holds _ rfl
    have line := isAtBreak.body_trimmed trimmed
    rw [Cut.consumed, ← front, List.append_assoc, List.append_assoc] at line
    have stops : ∀ c ∈ '"' :: back, isBlank c = false := List.forall_mem_cons.mpr ⟨rfl, visible⟩
    obtain ⟨rest, parts, left⟩ := exists_before (List.append_cancel_left line)
      (Cut.areBlank_gap _) stops isAtBreak.gap_ne_nil
    have ending : ending ≠ .directive := by
      rw [ends]
      unfold endingFor
      split
      · next yes => cases yes
      · split <;> simp
    rw [left] at others
    obtain ⟨later, more⟩ := others.exists_behind [] fun cut first => List.nil_prefix
    refine ⟨own, rest, later, _, parts, isAtBreak.gap_ne_nil, ending,
      left ▸ isTrimmed_trim _, others, more, ?_⟩
    rw [List.map_cons, List.cons_append, written_cons, Cut.piece, isAtBreak.kept_eq, ← front,
      more] at shown
    simp only [List.append_assoc, List.append_cancel_left_eq, List.nil_append] at shown
    exact shown.symm

/-- How far a literal is read once continued lines are joined. One visible character is lost where a
cut is not marked as one inside of a literal: the backslash in front of it, or the closing quote. -/
theorem Broken.reaches
    (broken : Broken page (some ' ') false next inLiteral lead (part ++ (content ++ '"' :: back))
      cuts last)
    (holds : HoldsFirst part cuts) (trimmed : IsTrimmed (part ++ (content ++ '"' :: back)))
    (visible : ∀ c ∈ back, isBlank c = false) (stops : back.getLast? ≠ some '\\')
    (whole : '\n' ∉ content) (blank : AreBlank next) (line : '\n' ∉ next)
    (shown : written (cuts.map Cut.piece ++ [last]) = lead ++ (part ++ behind)) (after : List Char) :
    Reaches content back (∃ cut ∈ cuts, cut.ending ≠ .literal) (splice (behind ++ after)) := by
  induction cuts generalizing inLiteral lead part content behind with
  | nil =>
    cases broken
    have ended : '\n' ∉ back := fun member => absurd (visible _ member) (by decide)
    refine ⟨content, splice after, Nat.le_refl _, Or.inl ⟨?_, by simp⟩⟩
    rw [behind_uncut shown, List.append_assoc, List.cons_append, List.append_assoc,
      List.singleton_append, splice_around (by decide) (by decide), splice_whole whole,
      splice_ended ended stops]
  | cons cut cuts inductionHypothesis =>
    obtain ⟨own, others, later, stillOpen, rfl, -, coding, trimmedToo, more, shownToo, rfl⟩ :=
      broken.exists_next holds trimmed visible shown
    simp only [List.mem_append, not_or] at whole
    have reached := @inductionHypothesis stillOpen next [] others later more
      (fun cut first => List.nil_prefix) trimmedToo whole.2.2 shownToo
    cases coded : cut.ending with
    | directive => exact absurd coded coding
    | literal =>
      rw [Ending.text, List.singleton_append, List.append_assoc, List.cons_append,
        List.cons_append, List.append_assoc]
      refine reached.marked cut.areBlank_gap blank line whole.1 ?_
      rintro ⟨other, member, plain⟩
      have inside : other ∈ cuts :=
        (List.mem_cons.mp member).resolve_left fun same => plain (same ▸ coded)
      exact ⟨other, inside, plain⟩
    | plain =>
      rw [Ending.text, List.nil_append, List.append_assoc, List.cons_append, List.append_assoc]
      exact reached.unmarked _ cut.areBlank_gap blank line whole.1

/-- A literal all of whose cuts are marked as ones inside of a literal is read with its pieces
joined. -/
theorem Broken.exists_read {count : Nat} {source : List Char}
    (broken : Broken page (some ' ') false (List.replicate count ' ') inLiteral lead
      (part ++ (escaped source ++ '"' :: back)) cuts last)
    (holds : HoldsFirst part cuts) (trimmed : IsTrimmed (part ++ (escaped source ++ '"' :: back)))
    (visible : ∀ c ∈ back, isBlank c = false) (whole : '\n' ∉ source)
    (marked : ∀ cut ∈ cuts, cut.ending = .literal)
    (shown : written (cuts.map Cut.piece ++ [last]) = lead ++ (part ++ behind)) (after : List Char) :
    ∃ read, Joins (List.replicate count ' ') cuts source read ∧
      (literal? (splice (behind ++ after))).map Prod.fst = some read := by
  have clean {c : Char} (other : c ≠ ' ') : c ∉ List.replicate count ' ' :=
    fun member => other (List.eq_of_mem_replicate member)
  induction cuts generalizing inLiteral lead part source behind with
  | nil =>
    cases broken
    have wholeToo : '\n' ∉ escaped source := fun member =>
      (mem_escaped member).elim whole (absurd · (by decide))
    refine ⟨source, .whole source, ?_⟩
    rw [behind_uncut shown, List.append_assoc, List.cons_append,
      splice_around (by decide) (by decide), splice_whole wholeToo, literal?_escaped whole,
      literal?_close]
    simp [readBehind]
  | cons cut cuts inductionHypothesis =>
    obtain ⟨own, others, later, stillOpen, parts, dropped, -, trimmedToo, more, shownToo, rfl⟩ :=
      broken.exists_next holds trimmed visible shown
    obtain ⟨front, rest, rfl, rfl, rfl⟩ := exists_escaped_append parts cut.areBlank_gap dropped
    obtain ⟨own, others⟩ := List.forall_mem_cons.mp marked
    simp only [List.mem_append, not_or] at whole
    obtain ⟨read, joins, found⟩ := @inductionHypothesis stillOpen _ [] later rest more
      (fun cut first => List.nil_prefix) trimmedToo whole.2.2 others shownToo
    have starts : ∀ c ∈ rest.head?, isBlank c = false := by
      intro c first
      obtain ⟨stop, rfl⟩ := List.head?_eq_some_iff.mp first
      rw [escaped_cons, escapedChar] at trimmedToo
      by_cases special : c = '\\' ∨ c = '"'
      · rcases special with rfl | rfl <;> rfl
      · exact trimmedToo.start c (by simp [special])
    have wholeToo : '\n' ∉ escaped front := fun member =>
      (mem_escaped member).elim whole.1 (absurd · (by decide))
    have joined : splice (escaped front ++ ('\\' :: '\n' :: (List.replicate count ' ' ++ later)) ++
        after) = escaped front ++ (escaped (List.replicate count ' ') ++ splice (later ++ after)) := by
      rw [escaped_eq (clean (by decide)) (clean (by decide)), List.append_assoc, List.cons_append,
        List.cons_append, List.append_assoc, splice_next wholeToo (clean (by decide))
          (areBlank_replicate count)]
    refine ⟨front ++ (List.replicate count ' ' ++ read), .cut front dropped starts joins, ?_⟩
    rw [own, Ending.text, List.singleton_append, joined, literal?_escaped whole.1,
      literal?_escaped (clean (by decide)), readBehind, readBehind, Option.map_map, Option.map_map]
    obtain ⟨⟨text, stop⟩, read, rfl⟩ := Option.map_eq_some_iff.mp found
    simp [read]

/-- An escaped literal is read as the text that it is made from just if the text has no tabs, each
cut in it is marked as one inside of a literal, and drops the blanks that a continuation starts
with. -/
theorem Broken.read_iff {count : Nat} {text : List Char}
    (broken : Broken page (some ' ') false (List.replicate count ' ') inLiteral lead
      (part ++ (content ++ '"' :: back)) cuts last)
    (holds : HoldsFirst part cuts) (trimmed : IsTrimmed (part ++ (content ++ '"' :: back)))
    (visible : ∀ c ∈ back, isBlank c = false) (stops : back.getLast? ≠ some '\\')
    (clean : '"' ∉ back) (widened : Widened (escaped text) content) (whole : '\n' ∉ text)
    (shown : written (cuts.map Cut.piece ++ [last]) = lead ++ (part ++ behind)) (after : List Char) :
    (literal? (splice (behind ++ after))).map Prod.fst = some text ↔
      '\t' ∉ text ∧ ∀ cut ∈ cuts, cut.ending = .literal ∧ cut.gap = List.replicate count ' ' := by
  have blank := areBlank_replicate count
  have notIn {c : Char} (other : c ≠ ' ') : c ∉ List.replicate count ' ' :=
    fun member => other (List.eq_of_mem_replicate member)
  by_cases marked : ∀ cut ∈ cuts, cut.ending = .literal
  · obtain ⟨source, rfl, wide⟩ := widened.exists_escaped
    obtain ⟨read, joins, found⟩ := broken.exists_read holds trimmed visible
      (wide.not_mem (by decide) whole) marked shown after
    rw [found, Option.some_inj]
    constructor
    · rintro rfl
      have noTab := joins.not_mem wide.no_tab (notIn (by decide))
      obtain rfl := wide.eq_of_no_tab noTab
      exact ⟨noTab, fun cut member => ⟨marked cut member, (joins.eq_iff blank).mp rfl cut member⟩⟩
    · rintro ⟨noTab, each⟩
      obtain rfl := wide.eq_of_no_tab noTab
      exact (joins.eq_iff blank).mpr fun cut member => (each cut member).2
  · have reaches := broken.reaches holds trimmed visible stops
      (widened.not_mem (by decide) fun member =>
        (mem_escaped member).elim whole (absurd · (by decide))) blank (notIn (by decide)) shown after
    refine iff_of_false (fun found => ?_) fun each => marked fun cut member => (each.2 cut member).1
    obtain ⟨⟨_, rest⟩, read, rfl⟩ := Option.map_eq_some_iff.mp found
    have fewer := (reaches.length_le clean read).2 (by simpa using marked)
    rw [widened.visible_eq] at fewer
    exact absurd fewer (lt_irrefl _)

/-- A text that is not escaped but should be is not read as it is. -/
theorem Broken.not_read {text : List Char}
    (broken : Broken page (some ' ') false next inLiteral lead (part ++ (content ++ '"' :: back))
      cuts last)
    (holds : HoldsFirst part cuts) (trimmed : IsTrimmed (part ++ (content ++ '"' :: back)))
    (visible : ∀ c ∈ back, isBlank c = false) (stops : back.getLast? ≠ some '\\')
    (clean : '"' ∉ back) (blank : AreBlank next) (line : '\n' ∉ next)
    (widened : Widened text content) (whole : '\n' ∉ text) (special : '\\' ∈ text ∨ '"' ∈ text)
    (shown : written (cuts.map Cut.piece ++ [last]) = lead ++ (part ++ behind)) (after : List Char) :
    (literal? (splice (behind ++ after))).map Prod.fst ≠ some text := by
  intro found
  obtain ⟨⟨_, rest⟩, read, rfl⟩ := Option.map_eq_some_iff.mp found
  have reaches := broken.reaches holds trimmed visible stops (widened.not_mem (by decide) whole)
    blank line shown after
  have few := (reaches.length_le clean read).1
  rw [widened.visible_eq] at few
  exact absurd few (Nat.not_le_of_lt (length_visible_lt special))

/-- The cuts in front of the first quote of a line and those behind it, with what is left of the line
in front of the quote. -/
theorem Broken.exists_opening {before rest : List Char}
    (broken : Broken page (some ' ') false next inLiteral lead (before ++ '"' :: rest) cuts last)
    (trimmed : IsTrimmed (before ++ '"' :: rest)) :
    ∃ early late near first stillOpen, cuts = early ++ late ∧
      before = early.flatMap Cut.consumed ++ near ∧ HoldsFirst (near ++ ['"']) late ∧
      IsTrimmed (near ++ ['"'] ++ rest) ∧
      Broken page (some ' ') false next stillOpen first (near ++ ['"'] ++ rest) late last := by
  have joined (near : List Char) : near ++ ['"'] ++ rest = near ++ '"' :: rest := by simp
  simp only [joined]
  induction cuts generalizing inLiteral lead before with
  | nil => exact ⟨[], [], before, lead, _, rfl, rfl, by simp [HoldsFirst], trimmed, broken⟩
  | cons cut cuts inductionHypothesis =>
    by_cases holds : before ++ ['"'] <+: cut.front
    · exact ⟨[], cut :: cuts, before, lead, _, rfl, rfl, by simpa [HoldsFirst] using holds, trimmed,
        broken⟩
    · cases broken with
      | @broken _ _ _ position ending _ _ long found ends others =>
        have isAtBreak : Cut.IsAtBreak (some ' ')
            ⟨lead, before ++ '"' :: rest, position, ending⟩ := Cut.isAtBreak found
        have line := isAtBreak.body_trimmed trimmed
        rw [Cut.consumed, List.append_assoc] at line
        have shorter : ∃ more,
            before = Cut.front ⟨lead, before ++ '"' :: rest, position, ending⟩ ++ more ∧
              more ++ '"' :: rest = Cut.gap ⟨lead, before ++ '"' :: rest, position, ending⟩ ++
                Cut.rest ⟨lead, before ++ '"' :: rest, position, ending⟩ := by
          rcases List.append_eq_append_iff.mp line with ⟨more, front, back⟩ | ⟨more, front, back⟩
          · cases more with
            | nil => exact ⟨[], by simpa using front.symm, back⟩
            | cons c more =>
              obtain ⟨rfl, -⟩ := List.cons.inj back
              exact absurd ⟨more, by rw [front]; simp⟩ holds
          · exact ⟨more, front, back.symm⟩
        obtain ⟨more, front, same⟩ := shorter
        obtain ⟨near, gap, left⟩ := exists_others same (Cut.areBlank_gap _) (by simp; decide)
        rw [left] at others
        obtain ⟨early, late, start, first, stillOpen, rfl, rfl, holdsFirst, ends, more⟩ :=
          inductionHypothesis others (left ▸ isTrimmed_trim _)
        refine ⟨_ :: early, late, start, first, stillOpen, rfl, ?_, holdsFirst, ends, more⟩
        rw [List.flatMap_cons, Cut.consumed, List.append_assoc, List.append_assoc, ← gap]
        exact front

end Pieces

/-- A line that is wrapped is broken, on a broader page if its continuations have no room. -/
theorem Wrapped.exists_broken {page : Page} {split : Option Char}
    {leader margin line last : List Char} {cuts : List Cut}
    (wrapped : Wrapped page split leader margin line cuts last) :
    ∃ broad, Broken broad split (isDirective line) (continuation page leader margin line) false
      margin line cuts last := by
  cases wrapped with
  | whole narrow =>
    exact ⟨⟨page.indent, (margin ++ line).length⟩, .whole fun long => absurd long (lt_irrefl _)⟩
  | broken room broken => exact ⟨page, broken⟩

/-- What the literal stands for that is read behind an opening quote, once continued lines are
joined. -/
def readText? (behind : List Char) : Option (List Char) :=
  (literal? (splice behind)).map Prod.fst

/-- A literal in laid out code. The code holds the pieces of the line `before`, quote, `content`,
quote, `back`. The late cuts are those behind the opening quote, whose piece goes on with what is
written behind it. -/
def Opens (page : Page) (depth : Nat) (before content back code : List Char) (late : List Cut)
    (behind : List Char) : Prop :=
  ∃ start early near first last stop,
    Wrapped page (some ' ') [] (List.replicate (depth * page.indent) ' ')
      (before ++ '"' :: (content ++ '"' :: back)) (early ++ late) last ∧
    code = start ++ (written ((early ++ late).map Cut.piece ++ [last]) ++ stop) ∧
    before = early.flatMap Cut.consumed ++ near ∧
    written (late.map Cut.piece ++ [last]) ++ stop = first ++ (near ++ '"' :: behind)

/-- The code is joined in front of the opening quote and behind it. -/
theorem Opens.exists_splice {page : Page} {depth : Nat} {before content back code behind : List Char}
    {late : List Cut} (opens : Opens page depth before content back code late behind) :
    ∃ front, code = front ++ '"' :: behind ∧ splice code = splice front ++ '"' :: splice behind := by
  obtain ⟨start, early, near, first, last, stop, -, rfl, -, ends⟩ := opens
  refine ⟨start ++ (written (early.map Cut.piece) ++ (first ++ near)), ?_⟩
  have same : start ++ (written ((early ++ late).map Cut.piece ++ [last]) ++ stop) =
      start ++ (written (early.map Cut.piece) ++ (first ++ near)) ++ '"' :: behind := by
    rw [List.map_append, List.append_assoc, written_append, List.append_assoc, ends]
    simp only [List.append_assoc]
  rw [same]
  exact ⟨rfl, splice_around (by decide) (by decide) _ _⟩

/-- Each cut in a literal is marked as one and drops the blanks that the continuations of its line
start with. -/
def Rejoins (page : Page) (depth : Nat) (late : List Cut) : Prop :=
  ∀ cut ∈ late, cut.ending = .literal ∧
    cut.gap = List.replicate ((depth + 1) * page.indent) ' '

/-- A literal in laid out code, of which the rest follows its opening quote. Once continued lines are
joined it is read as a text just if a condition holds and the cuts in it rejoin. -/
def ReadsIff (page : Page) (before quoted back code text : List Char) (plain : Prop) : Prop :=
  ∃ depth content late front behind, Widened quoted content ∧
    Opens page depth before content back code late behind ∧
    splice code = splice front ++ '"' :: splice behind ∧
    (readText? behind = some text ↔ plain ∧ Rejoins page depth late)

/-- What stands around a literal on its line: code in front of it, and no blanks, quotes or
backslashes at the end. -/
structure Surrounds (before back : List Char) : Prop where
  starts : ∃ c ∈ before.head?, isBlank c = false ∧ c ≠ '#' ∧ c ≠ '/'
  visible : ∀ c ∈ back, isBlank c = false
  stops : back.getLast? ≠ some '\\'
  clean : '"' ∉ back

namespace Surrounds

variable {before back : List Char}

/-- The line of a literal has no blanks around it and is no directive or comment. -/
theorem line (surrounds : Surrounds before back) (content : List Char) :
    IsTrimmed (before ++ '"' :: (content ++ '"' :: back)) ∧
      isDirective (before ++ '"' :: (content ++ '"' :: back)) = false ∧
      isComment (before ++ '"' :: (content ++ '"' :: back)) = false := by
  obtain ⟨c, first, visible, directive, comment⟩ := surrounds.starts
  obtain ⟨rest, rfl⟩ := List.head?_eq_some_iff.mp first
  refine ⟨⟨by simpa using visible, fun last ends => ?_⟩, by simp [isDirective, directive],
    by simp [isComment, startsWith, List.isPrefixOf, Ne.symm comment]⟩
  have inside : last ∈ '"' :: back := by
    rw [Option.mem_def, List.getLast?_append_of_ne_nil _ (List.cons_ne_nil _ _),
      ← List.cons_append, List.getLast?_append_of_ne_nil _ (List.cons_ne_nil _ _)] at ends
    exact List.mem_of_getLast? ends
  exact (List.mem_cons.mp inside).elim (fun same => same ▸ rfl) (surrounds.visible last)

/-- A literal in laid out code. If it is escaped, it is read as the text that it is made from just if
the text has no tabs and the cuts in it rejoin; if it is not, the text may not have characters that
are escaped besides. -/
theorem exists_opens (surrounds : Surrounds before back) {page : Page} {depth : Nat}
    {content code start stop : List Char}
    (shown : code = start ++ (written (wrap page (some ' ') []
      (List.replicate (depth * page.indent) ' ') (before ++ '"' :: (content ++ '"' :: back))) ++
        stop)) :
    ∃ late behind, Opens page depth before content back code late behind ∧
      (∀ text, Widened (escaped text) content → '\n' ∉ text →
        (readText? behind = some text ↔ '\t' ∉ text ∧ Rejoins page depth late)) ∧
      ∀ text, Widened text content → '\n' ∉ text →
        (readText? behind = some text ↔
          ('\t' ∉ text ∧ '\\' ∉ text ∧ '"' ∉ text) ∧ Rejoins page depth late) := by
  obtain ⟨trimmed, directive, comment⟩ := surrounds.line content
  obtain ⟨cuts, last, wrapped, pieces⟩ := exists_wrapped page (some ' ') []
    (List.replicate (depth * page.indent) ' ') (before ++ '"' :: (content ++ '"' :: back))
  obtain ⟨broad, broken⟩ := wrapped.exists_broken
  rw [directive, continuation_code comment, ← List.replicate_add, ← Nat.succ_mul] at broken
  obtain ⟨early, late, near, first, stillOpen, rfl, front, holds, trimmedToo, more⟩ :=
    broken.exists_opening trimmed
  obtain ⟨behind, ends⟩ := more.exists_behind (near ++ ['"']) holds
  have opens : Opens page depth before content back code late (behind ++ stop) :=
    ⟨start, early, near, first, last, stop, wrapped, pieces ▸ shown, front, by rw [ends]; simp⟩
  have escapedRead (text : List Char) (widened : Widened (escaped text) content)
      (whole : '\n' ∉ text) :
      readText? (behind ++ stop) = some text ↔ '\t' ∉ text ∧ Rejoins page depth late :=
    more.read_iff holds trimmedToo surrounds.visible surrounds.stops surrounds.clean widened whole
      ends stop
  refine ⟨late, behind ++ stop, opens, escapedRead, fun text widened whole => ?_⟩
  by_cases special : '\\' ∈ text ∨ '"' ∈ text
  · have notRead := more.not_read holds trimmedToo surrounds.visible surrounds.stops surrounds.clean
      (areBlank_replicate _) (fun member => absurd (List.eq_of_mem_replicate member) (by decide))
      widened whole special ends stop
    exact iff_of_false notRead fun ⟨⟨_, slash, quote⟩, _⟩ => special.elim slash quote
  · rw [not_or] at special
    have same := escapedRead text (by rwa [escaped_eq special.1 special.2]) whole
    simpa [special.1, special.2] using same

end Surrounds

end EncoderTables.Code
