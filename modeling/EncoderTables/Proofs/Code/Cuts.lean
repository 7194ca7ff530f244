import EncoderTables.Code.Wrap
import EncoderTables.Proofs.Text.Trimming

/-!
# Cuts of a line

A line that is wrapped is cut at breaks. Each cut keeps at least one character of the line in its
piece and drops the blanks behind it, so the line is the fronts of all pieces with these blanks
between them, and there are no more cuts than it has characters.
-/

namespace EncoderTables.Code

/-- A cut of a line: what its piece starts with, what is left of the line from there on, the
position of the break in both together, and what the piece ends with. -/
structure Cut where
  lead : List Char
  body : List Char
  position : Nat
  ending : Ending
  deriving DecidableEq

namespace Cut

/-- The text that is cut. -/
def text (cut : Cut) : List Char := cut.lead ++ cut.body

/-- What is kept of the text in front of the cut. -/
def kept (cut : Cut) : List Char := keptUpTo cut.text cut.position

/-- The piece that is written. -/
def piece (cut : Cut) : List Char := cut.kept ++ cut.ending.text

/-- The characters of the line in the piece. -/
def front (cut : Cut) : List Char := keptUpTo cut.body (cut.position - cut.lead.length)

/-- The characters of the line behind the piece. -/
def behind (cut : Cut) : List Char := cut.body.drop cut.front.length

/-- The blanks that the cut drops. -/
def gap (cut : Cut) : List Char := cut.behind.takeWhile Text.isBlank

/-- What is left of the line behind the cut. -/
def rest (cut : Cut) : List Char :=
  Text.trim (cut.body.drop (cut.position + 1 - cut.lead.length))

/-- The characters of the line that end with the cut. -/
def consumed (cut : Cut) : List Char := cut.front ++ cut.gap

end Cut

/-- What a piece ends with, in a directive or not, with or without an open literal. -/
def endingFor (directive stillOpen : Bool) : Ending :=
  if directive then .directive else if stillOpen then .literal else .plain

/-- The cuts of a line of which the first piece starts with a lead and all others with `next`, and
its last piece. The line is cut as long as it is too long and there is a break behind the
lead. -/
inductive Broken (page : Page) (split : Option Char) (directive : Bool) (next : List Char) :
    (inLiteral : Bool) → (lead body : List Char) → List Cut → (last : List Char) → Prop where
  | whole {inLiteral : Bool} {lead body : List Char}
    (stays : page.width < (lead ++ body).length →
      breakAt? (lead ++ body) page.width split lead.length = none) :
    Broken page split directive next inLiteral lead body [] (lead ++ body)
  | broken {inLiteral : Bool} {lead body : List Char} {position : Nat} {ending : Ending}
    {cuts : List Cut} {last : List Char} (long : page.width < (lead ++ body).length)
    (found : breakAt? (lead ++ body) page.width split lead.length = some position)
    (ends : ending = endingFor directive
      (inLiteral != togglesLiteral (keptUpTo (lead ++ body) position)))
    (others : Broken page split directive next
      (inLiteral != togglesLiteral (keptUpTo (lead ++ body) position)) next
      (Cut.rest ⟨lead, body, position, ending⟩) cuts last) :
    Broken page split directive next inLiteral lead body (⟨lead, body, position, ending⟩ :: cuts)
      last

/-- The cuts of a line behind a margin, and its last piece. There are none when the continuations
would have no room. -/
inductive Wrapped (page : Page) (split : Option Char) (leader margin line : List Char) :
    List Cut → (last : List Char) → Prop where
  | whole (narrow : page.width ≤ (continuation page leader margin line).length) :
    Wrapped page split leader margin line [] (margin ++ line)
  | broken {cuts : List Cut} {last : List Char}
    (room : (continuation page leader margin line).length < page.width)
    (broken : Broken page split (isDirective line) (continuation page leader margin line) false
      margin line cuts last) :
    Wrapped page split leader margin line cuts last

/-- A character that is kept is the one at the break. -/
theorem keptUpTo_eq {text : List Char} {position : Nat} {c : Char}
    (found : text[position]? = some c) :
    keptUpTo text position = text.take position ++ if c = ' ' then [] else [c] := by
  obtain ⟨inside, rfl⟩ := List.getElem?_eq_some_iff.mp found
  rw [keptUpTo, found, List.drop_eq_getElem_cons inside]
  by_cases blank : text[position] = ' '
  · rw [if_pos (congrArg some blank), if_pos blank, List.take_zero]
  · rw [if_neg fun same => blank (Option.some.inj same), if_neg blank, List.take_succ_cons,
      List.take_zero]

/-- What stands in front of the break is kept. -/
theorem keptUpTo_append {lead : List Char} (body : List Char) {position : Nat}
    (behind : lead.length ≤ position) :
    keptUpTo (lead ++ body) position = lead ++ keptUpTo body (position - lead.length) := by
  rw [keptUpTo, keptUpTo, List.take_append, List.drop_append, List.getElem?_append_right behind,
    List.take_of_length_le behind, List.drop_of_length_le behind, List.nil_append,
    List.append_assoc]

/-- A position at which a text is broken holds one of the characters, behind no quote. -/
theorem breaks_of_breakAt? {text : List Char} {width start position : Nat} {split : Option Char}
    (found : breakAt? text width split start = some position) :
    ∃ c ∈ breakChars split, text[position]? = some c ∧ text[position - 1]? ≠ some '\x27' := by
  have hit : ∃ c ∈ breakChars split, breaks text c position = true := by
    unfold breakAt? at found
    split at found
    · next near hit =>
      obtain rfl : near = position := Option.some.inj found
      exact (of_firstBreak hit).2
    · exact (of_firstBreak found).2
  obtain ⟨c, listed, hit⟩ := hit
  simp only [breaks, Bool.and_eq_true, beq_iff_eq, bne_iff_ne] at hit
  exact ⟨c, listed, hit.1, hit.2⟩

/-- A cut at a break behind its lead. -/
structure Cut.IsAtBreak (split : Option Char) (cut : Cut) : Prop where
  behind : cut.lead.length < cut.position
  inside : cut.position < cut.text.length
  broken : ∃ c ∈ breakChars split,
    cut.text[cut.position]? = some c ∧ cut.text[cut.position - 1]? ≠ some '\x27'

namespace Cut

variable {split : Option Char} {cut : Cut}

/-- A cut drops only blanks. -/
theorem areBlank_gap (cut : Cut) : Text.AreBlank cut.gap :=
  fun _ member => List.mem_takeWhile_imp member

/-- A break that is found is one. -/
theorem isAtBreak {width position : Nat} {lead body : List Char} {ending : Ending}
    (found : breakAt? (lead ++ body) width split lead.length = some position) :
    IsAtBreak split ⟨lead, body, position, ending⟩ where
  behind := (breakAt?_bounds found).1
  inside := (breakAt?_bounds found).2
  broken := breaks_of_breakAt? found

namespace IsAtBreak

/-- A piece starts with its lead. -/
theorem kept_eq (isAtBreak : cut.IsAtBreak split) : cut.kept = cut.lead ++ cut.front :=
  keptUpTo_append cut.body isAtBreak.behind.le

/-- The character at the break, in what is left of the line. -/
theorem getElem?_body (isAtBreak : cut.IsAtBreak split) :
    cut.body[cut.position - cut.lead.length]? = cut.text[cut.position]? :=
  (List.getElem?_append_right isAtBreak.behind.le).symm

/-- The line around a cut: the character at the break is kept unless it is a blank. -/
theorem exists_body (isAtBreak : cut.IsAtBreak split) : ∃ c ∈ breakChars split,
    cut.text[cut.position]? = some c ∧
    cut.front = cut.body.take (cut.position - cut.lead.length) ++ (if c = ' ' then [] else [c]) ∧
    cut.body = cut.front ++ ((if c = ' ' then [' '] else []) ++
      cut.body.drop (cut.position + 1 - cut.lead.length)) := by
  obtain ⟨c, listed, found, -⟩ := isAtBreak.broken
  have own : cut.body[cut.position - cut.lead.length]? = some c :=
    isAtBreak.getElem?_body.trans found
  have shape : cut.front =
      cut.body.take (cut.position - cut.lead.length) ++ if c = ' ' then [] else [c] :=
    keptUpTo_eq own
  obtain ⟨inside, same⟩ := List.getElem?_eq_some_iff.mp own
  have next : cut.position + 1 - cut.lead.length = cut.position - cut.lead.length + 1 := by
    have := isAtBreak.behind
    omega
  have parts := List.take_append_drop (cut.position - cut.lead.length) cut.body
  rw [List.drop_eq_getElem_cons inside, same, ← next] at parts
  refine ⟨c, listed, found, shape, ?_⟩
  rw [shape]
  conv_lhs => rw [← parts]
  by_cases blank : c = ' '
  · simp [blank]
  · simp [blank]

/-- A piece has a character of the line in it. -/
theorem front_ne_nil (isAtBreak : cut.IsAtBreak split) : cut.front ≠ [] := by
  obtain ⟨c, -, -, shape, -⟩ := isAtBreak.exists_body
  have behind := isAtBreak.behind
  have inside := isAtBreak.inside
  rw [text, List.length_append] at inside
  have filled : (cut.body.take (cut.position - cut.lead.length)).length ≠ 0 := by
    rw [List.length_take]
    omega
  rw [shape]
  exact List.append_ne_nil_of_left_ne_nil (List.ne_nil_of_length_pos (Nat.pos_of_ne_zero filled)) _

/-- The line goes on behind a piece. -/
theorem body_eq (isAtBreak : cut.IsAtBreak split) : cut.body = cut.front ++ cut.behind := by
  obtain ⟨c, -, -, -, parts⟩ := isAtBreak.exists_body
  have back : cut.behind = (if c = ' ' then [' '] else []) ++
      cut.body.drop (cut.position + 1 - cut.lead.length) := by
    rw [Cut.behind]
    conv_lhs => rw [parts]
    exact List.drop_left
  rw [back]
  exact parts

/-- What is left of the line is what stands behind the piece without outer blanks. -/
theorem rest_eq (isAtBreak : cut.IsAtBreak split) : cut.rest = Text.trim cut.behind := by
  obtain ⟨c, -, -, -, parts⟩ := isAtBreak.exists_body
  have back := List.append_cancel_left (isAtBreak.body_eq.symm.trans parts)
  have blank : Text.AreBlank (if c = ' ' then [' '] else []) := by split <;> decide
  rw [back, Text.trim_append_left blank, rest]

/-- A cut drops blanks between its piece and what is left of the line, and at the end of it. -/
theorem exists_tail (isAtBreak : cut.IsAtBreak split) :
    ∃ tail, Text.AreBlank tail ∧ cut.body = cut.consumed ++ (cut.rest ++ tail) := by
  obtain ⟨tail, blank, parts⟩ := Text.exists_tail cut.behind
  refine ⟨tail, blank, ?_⟩
  rw [consumed, isAtBreak.rest_eq, List.append_assoc]
  conv_lhs => rw [isAtBreak.body_eq, parts]
  rfl

/-- A line without a blank at its end is what its cut consumes and what is left. -/
theorem body_trimmed (isAtBreak : cut.IsAtBreak split) (trimmed : Text.IsTrimmed cut.body) :
    cut.body = cut.consumed ++ cut.rest := by
  obtain ⟨tail, blank, line⟩ := isAtBreak.exists_tail
  rcases List.eq_nil_or_concat' tail with rfl | ⟨former, last, rfl⟩
  · rwa [List.append_nil] at line
  · have visible := trimmed.stop last (by rw [line]; simp)
    rw [blank last (by simp)] at visible
    cases visible

/-- What is left is a part of the line. -/
theorem mem_body_of_mem_rest (isAtBreak : cut.IsAtBreak split) {c : Char}
    (member : c ∈ cut.rest) : c ∈ cut.body := by
  obtain ⟨tail, -, line⟩ := isAtBreak.exists_tail
  rw [line]
  exact List.mem_append_right _ (List.mem_append_left _ member)

/-- A piece has characters of its lead and of the line. -/
theorem mem_of_mem_kept (isAtBreak : cut.IsAtBreak split) {c : Char} (member : c ∈ cut.kept) :
    c ∈ cut.lead ∨ c ∈ cut.body := by
  rw [isAtBreak.kept_eq, List.mem_append] at member
  rw [isAtBreak.body_eq]
  exact member.imp_right (List.mem_append_left _)

end IsAtBreak

end Cut

/-- A line is written as its pieces. -/
theorem exists_broken (page : Page) (split : Option Char) (directive : Bool) (next : List Char)
    (inLiteral : Bool) (lead body : List Char) :
    ∃ cuts last, Broken page split directive next inLiteral lead body cuts last ∧
      wrapFrom page split directive next inLiteral lead body = cuts.map Cut.piece ++ [last] := by
  fun_induction wrapFrom page split directive next inLiteral lead body with
  | case1 inLiteral lead body text fits =>
    exact ⟨[], _, .whole fun long => absurd fits (Nat.not_le_of_lt long), rfl⟩
  | case2 inLiteral lead body text long found => exact ⟨[], _, .whole fun _ => found, rfl⟩
  | case3 inLiteral lead body text long position found kept stillOpen ending
      inductionHypothesis =>
    obtain ⟨cuts, last, others, pieces⟩ := inductionHypothesis
    have own : Broken page split directive next inLiteral lead body
        (⟨lead, body, position, ending⟩ :: cuts) last :=
      .broken (Nat.lt_of_not_le long) found rfl others
    exact ⟨_, last, own, by rw [pieces]; rfl⟩

/-- A line behind a margin is written as its pieces. -/
theorem exists_wrapped (page : Page) (split : Option Char) (leader margin line : List Char) :
    ∃ cuts last, Wrapped page split leader margin line cuts last ∧
      wrap page split leader margin line = cuts.map Cut.piece ++ [last] := by
  unfold wrap
  dsimp only
  split
  · next narrow => exact ⟨[], _, .whole narrow, rfl⟩
  · next room =>
    obtain ⟨cuts, last, broken, pieces⟩ := exists_broken page split (isDirective line)
      (continuation page leader margin line) false margin line
    exact ⟨cuts, last, .broken (Nat.lt_of_not_le room) broken, pieces⟩

namespace Broken

variable {page : Page} {split : Option Char} {directive inLiteral : Bool}
  {next lead body last : List Char} {cuts : List Cut}

/-- All cuts are at breaks. -/
theorem isAtBreak (broken : Broken page split directive next inLiteral lead body cuts last) :
    ∀ cut ∈ cuts, cut.IsAtBreak split := by
  induction broken with
  | whole stays => exact List.forall_mem_nil _
  | broken long found ends others inductionHypothesis =>
    exact List.forall_mem_cons.mpr ⟨Cut.isAtBreak found, inductionHypothesis⟩

/-- The first piece starts with the lead of the line. -/
theorem lead_first (broken : Broken page split directive next inLiteral lead body cuts last) :
    ∀ cut ∈ cuts.head?, cut.lead = lead := by
  cases broken with
  | whole stays => simp
  | broken long found ends others => simp

/-- All other pieces start with that of a continuation. -/
theorem lead_later (broken : Broken page split directive next inLiteral lead body cuts last) :
    ∀ cut ∈ cuts.tail, cut.lead = next := by
  induction broken with
  | whole stays => exact List.forall_mem_nil _
  | @broken _ _ _ _ _ cuts _ long found ends others inductionHypothesis =>
    intro later member
    cases cuts with
    | nil => cases member
    | cons second cuts =>
      rcases List.mem_cons.mp member with rfl | behind
      · exact others.lead_first later rfl
      · exact inductionHypothesis later behind

/-- The line consists of what its cuts consume and what is left in the last piece, but for blanks
at its end. -/
theorem exists_line (broken : Broken page split directive next inLiteral lead body cuts last) :
    ∃ rest tail, Text.AreBlank tail ∧ last = (if cuts = [] then lead else next) ++ rest ∧
      body = cuts.flatMap Cut.consumed ++ (rest ++ tail) := by
  induction broken with
  | @whole _ lead body stays => exact ⟨body, [], List.forall_mem_nil _, rfl, by simp⟩
  | @broken _ lead body position ending cuts last long found ends others inductionHypothesis =>
    obtain ⟨rest, tail, blank, ended, parts⟩ := inductionHypothesis
    have isAtBreak : Cut.IsAtBreak split ⟨lead, body, position, ending⟩ := Cut.isAtBreak found
    obtain ⟨stop, blankToo, line : body = _⟩ := isAtBreak.exists_tail
    refine ⟨rest, tail ++ stop, blank.append blankToo, ?_, ?_⟩
    · rw [ended, ite_self, if_neg (List.cons_ne_nil _ _)]
    · refine line.trans ?_
      rw [parts]
      simp only [List.flatMap_cons, List.append_assoc]

/-- There are no more cuts than characters in the line. -/
theorem length_le (broken : Broken page split directive next inLiteral lead body cuts last) :
    cuts.length ≤ body.length := by
  induction broken with
  | whole stays => exact Nat.zero_le _
  | @broken _ lead body position ending cuts last long found ends others inductionHypothesis =>
    have isAtBreak : Cut.IsAtBreak split ⟨lead, body, position, ending⟩ := Cut.isAtBreak found
    obtain ⟨tail, -, line : body = _⟩ := isAtBreak.exists_tail
    have filled := List.length_pos_of_ne_nil isAtBreak.front_ne_nil
    have lengths := congrArg List.length line
    rw [Cut.consumed, List.length_append, List.length_append, List.length_append] at lengths
    rw [List.length_cons]
    omega

/-- The pieces of a directive are continued as it is. -/
theorem ending_directive (broken : Broken page split true next inLiteral lead body cuts last) :
    ∀ cut ∈ cuts, cut.ending = .directive := by
  generalize own : true = directive at broken
  induction broken with
  | whole stays => exact List.forall_mem_nil _
  | broken long found ends others inductionHypothesis =>
    subst own
    exact List.forall_mem_cons.mpr ⟨ends, inductionHypothesis⟩

end Broken

end EncoderTables.Code
